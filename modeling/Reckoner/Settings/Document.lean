import Reckoner.Settings.Fault
import Reckoner.Text.Blank
import Reckoner.Text.Case
import Reckoner.Text.Lines

/-!
# Configuration documents

The text of a configuration file as a sequence of section headings and settings. A setting is
`option = value` or `option : value`, and lines indented more than its first line continue its
value. Lines that begin with `#` or `;` are comments; empty lines inside a value belong to it. A
document with a fault still has everything that was read before the fault was raised: a missing
heading or a repetition breaks it off, lines that are no settings are a fault at its end.
-/

namespace Reckoner.Settings

/-- The section whose options all sections inherit. -/
def defaultSection : String := "DEFAULT"

/-- What a document says. -/
inductive Entry where
  | heading (sectionName : String)
  /-- An option and the lines of its value, each without the blanks around it. -/
  | setting (sectionName option : String) (lines : List String)
deriving DecidableEq, Repr

/-- A document that was read, to its end or up to a fault. -/
structure Document where
  entries : List Entry
  fault : Option Fault
deriving DecidableEq, Repr

namespace Document

/-- The document was read to its end. Lines that are no settings do not prevent that. -/
def isWhole (d : Document) : Bool :=
  match d.fault with
  | none | some (.badLines ..) => true
  | some _ => false

/-- The name in a heading: what stands between the bracket at the front and the last closing one,
at least one character. -/
def headingName? : List Char → Option String
  | '[' :: cs =>
    match (cs.reverse.dropWhile (· != ']')).reverse.dropLast with
    | [] => none
    | name => some (String.ofList name)
  | _ => none

/-- The option and the value around the first delimiter. -/
def setting? (cs : List Char) : Option (String × String) :=
  let isDelimiter (c : Char) : Bool := c == '=' || c == ':'
  match cs.dropWhile fun c => !isDelimiter c with
  | [] => none
  | _ :: value =>
    let option := cs.takeWhile fun c => !isDelimiter c
    some (Text.lower (String.ofList (Text.trimRight option)), String.ofList (Text.trim value))

/-- A setting whose value may still be continued. -/
structure Draft where
  sectionName : String
  option : String
  /-- The lines of the value, the last one first. -/
  lines : List String

/-- The setting as far as it has been read. -/
def Draft.entry (d : Draft) : Entry := .setting d.sectionName d.option d.lines.reverse

/-- How far a document has been read. -/
structure Reader where
  /-- Entries that are complete, the last one first. -/
  entries : List Entry := []
  /-- The setting that lines still belong to. -/
  draft : Option Draft := none
  /-- The current section, after the first heading. -/
  sectionName : Option String := none
  /-- The indentation that a continuation has to exceed. -/
  indent : Nat := 0
  sections : List String := []
  options : List (String × String) := []
  /-- Lines that are no settings, the last one first. -/
  bad : List (Nat × String) := []

namespace Reader

/-- Ends the current setting. -/
def close (r : Reader) : Reader :=
  match r.draft with
  | none => r
  | some d => { r with entries := d.entry :: r.entries, draft := none }

/-- Adds a line to the current setting, if there is one. -/
def extend (r : Reader) (line : String) : Reader :=
  { r with draft := r.draft.map fun d => { d with lines := line :: d.lines } }

/-- Notes a line that is no setting. -/
def reject (r : Reader) (number : Nat) (line : List Char) : Reader :=
  { r with bad := (number, String.ofList line) :: r.bad }

/-- Begins a section. The section of defaults may come up repeatedly, any other one only once. -/
def heading (file : String) (number : Nat) (name : String) (r : Reader) : Except Fault Reader :=
  if r.sections.contains name then .error (.duplicateSection file number name)
  else
    let r := r.close
    .ok { r with
      entries := .heading name :: r.entries
      sectionName := some name
      sections := if name = defaultSection then r.sections else name :: r.sections }

/-- Begins a setting in a section. A setting without a name is refused, but its value counts. -/
def setting (file : String) (number : Nat) (line : List Char) (sectionName : String)
    (option value : String) (r : Reader) : Except Fault Reader :=
  let r := if option = "" then r.reject number line else r
  if r.options.contains (sectionName, option) then
    .error (.duplicateOption file number sectionName option)
  else
    let draft : Draft := ⟨sectionName, option, [value]⟩
    let r := { r.close with options := (sectionName, option) :: r.options }
    .ok (if option = "" then { r with entries := draft.entry :: r.entries }
      else { r with draft := some draft })

/-- Reads one line. -/
def line (file : String) (number : Nat) (line : List Char) (r : Reader) : Except Fault Reader :=
  let content := Text.trim line
  match content with
  | [] => .ok (r.extend "")
  | '#' :: _ | ';' :: _ => .ok r
  | _ =>
    let indent := (line.takeWhile Text.isBlank).length
    if r.draft.isSome ∧ r.indent < indent then .ok (r.extend (String.ofList content))
    else
      let r := { r with indent := indent }
      match headingName? content, r.sectionName with
      | some name, _ => r.heading file number name
      | none, none => .error (.missingHeading file number (String.ofList line))
      | none, some sectionName =>
        match setting? content with
        | some (option, value) => r.setting file number line sectionName option value
        | none => .ok (r.reject number line)

/-- The document read so far, with a fault if lines were no settings. -/
def finish (file : String) (r : Reader) : Document :=
  { entries := r.close.entries.reverse
    fault := if r.bad = [] then none else some (.badLines file r.bad.reverse) }

/-- Reads the remaining lines, the first of which has the given number. -/
def readLines (file : String) (r : Reader) (number : Nat) : List (List Char) → Document
  | [] => r.finish file
  | l :: rest =>
    match r.line file number l with
    | .ok r => readLines file r (number + 1) rest
    | .error fault => { entries := r.close.entries.reverse, fault := some fault }

end Reader

/-- Reads the text of a file; the name of the file is for messages. -/
def read (file text : String) : Document :=
  Reader.readLines file {} 1 (Text.lines (Text.unifyLineEnds text.toList))

end Document

end Reckoner.Settings
