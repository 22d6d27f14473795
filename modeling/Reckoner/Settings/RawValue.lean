import Reckoner.Settings.Fault
import Reckoner.Text.Blank

/-!
# Raw values

What is stored for an option before references are followed. A value may span several lines of its
document, and these become one text only when a document has been read to its end. The values of a
document that broke off are unfinished until then, and cannot be read.
-/

namespace Reckoner.Settings

/-- The value of an option as it is stored. -/
inductive RawValue where
  | text (value : String)
  /-- The lines of a value whose document broke off. -/
  | unfinished (lines : List String)
deriving DecidableEq, Repr

namespace RawValue

/-- The lines of a value as one text, without blanks at the end. -/
def joinLines (lines : List String) : String :=
  String.ofList (Text.trimRight ("\n".intercalate lines).toList)

/-- The text of a value, or the one it will have when it is finished. -/
def toText : RawValue → String
  | text value => value
  | unfinished lines => joinLines lines

/-- Makes one text of a value. -/
def finish (v : RawValue) : RawValue := text v.toText

@[simp] theorem toText_finish (v : RawValue) : v.finish.toText = v.toText := rfl

@[simp] theorem finish_finish (v : RawValue) : v.finish.finish = v.finish := rfl

def isUnfinished : RawValue → Bool
  | text _ => false
  | unfinished _ => true

/-- The value has a percent sign; an unfinished one has it only if it is a line of its own. -/
def hasPercent : RawValue → Bool
  | text value => value.toList.contains '%'
  | unfinished lines => lines.contains "%"

/-- The text that values make up one after the other. The first unfinished one is a fault. -/
def concat (values : List RawValue) : Except Fault String :=
  match values.findIdx? isUnfinished with
  | some place => .error (.unfinishedPart place)
  | none => .ok (String.join (values.map toText))

/-- Finished values make up a text. -/
theorem concat_map_text (values : List String) :
    concat (values.map text) = .ok (String.join values) := by
  have hnone : (values.map text).findIdx? isUnfinished = none := by
    simp [List.findIdx?_eq_none_iff, isUnfinished]
  have htexts : toText ∘ text = id := rfl
  simp [concat, hnone, htexts]

end RawValue

end Reckoner.Settings
