import Reckoner.NumberText
import Reckoner.Settings.Interpolation

/-!
# Asking for settings

An option is asked for by section and name, as a text or as a value of another type; a section or
option that does not exist has no value, which leaves the choice of a fallback to whoever asks.
Sections and options can also be asked for as fields or items, which have to exist, and so can three
settings of the program itself.
-/

namespace Reckoner.Settings

namespace Store

/-- The value of an option, with its references followed. -/
def value? (s : Store) (sectionName option : String) : Except Fault (Option String) :=
  let option := Text.lower option
  match s.raw? sectionName option with
  | none => .ok none
  | some raw => do
    let parts ← s.expand sectionName option maxSteps raw
    some <$> RawValue.concat parts

/-- The value of an option, read as a value of another type. -/
def typed? {α : Type} (read : String → Except Fault α) (s : Store) (sectionName option : String) :
    Except Fault (Option α) := do
  match ← s.value? sectionName option with
  | none => pure none
  | some text => some <$> read text

/-- Reads an integer. -/
def readInt (text : String) : Except Fault Int :=
  match NumberText.readInt text.toList with
  | .ok n => .ok n
  | .error .malformed => .error (.notInt text)
  | .error (.tooLong digits) => .error (.intTooLong digits)

/-- Reads a double. -/
def readFloat (text : String) : Except Fault Float :=
  match NumberText.readFloat text.toList with
  | some x => .ok x
  | none => .error (.notFloat text)

/-- Reads a truth value. -/
def readBool (text : String) : Except Fault Bool :=
  let word := Text.lower text
  if ["1", "yes", "true", "on"].contains word then .ok true
  else if ["0", "no", "false", "off"].contains word then .ok false
  else .error (.notBool text)

/-- The value of an option as an integer. -/
def int? : Store → String → String → Except Fault (Option Int) := typed? readInt

/-- The value of an option as a double. -/
def float? : Store → String → String → Except Fault (Option Float) := typed? readFloat

/-- The value of an option as a truth value. -/
def bool? : Store → String → String → Except Fault (Option Bool) := typed? readBool

/-- The value of an option that has to exist, else the fault `missing`. -/
def required (s : Store) (missing : Fault) (sectionName option : String) :
    Except Fault String := do
  if s.hasOption sectionName (Text.lower option) then
    pure ((← s.value? sectionName option).getD "")
  else .error missing

/-- A section asked for as a field has to exist. -/
def checkSection (s : Store) (name : String) : Except Fault Unit :=
  if s.hasSection name then .ok () else .error (.noSection name)

/-- An option asked for as a field of a section that is one too. -/
def field (s : Store) (sectionName option : String) : Except Fault String := do
  s.checkSection sectionName
  s.required (.noOption option) sectionName option

/-- An option asked for as an item of a section. -/
def item (s : Store) (sectionName option : String) : Except Fault String := do
  if s.hasSection sectionName then s.required (.noKey option) sectionName option
  else .error (.noKey sectionName)

/-- An option asked for as an item of a section that is a field. -/
def sectionItem (s : Store) (sectionName option : String) : Except Fault String := do
  s.checkSection sectionName
  s.required (.noKey option) sectionName option

/-- An option, which need not exist, of a section that is a field. -/
def sectionValue? (s : Store) (sectionName option : String) :
    Except Fault (Option String) := do
  s.checkSection sectionName
  s.value? sectionName option

/-- A setting asked for as a field: there is no such field as long as the value is unfinished. -/
def asField {α : Type} (name : String) : Except Fault α → Except Fault α
  | .error .unfinishedValue => .error (.noSection name)
  | answer => answer

/-- The program's name and version as configured. -/
def version (s : Store) : Except Fault String :=
  asField "version" do
    pure ((← s.value? defaultSection "version").getD "")

/-- The level of the log as configured. -/
def logLevel (s : Store) : Except Fault String :=
  asField "log_level" do
    pure ((← s.value? "logging" "log_level").getD "WARNING")

/-- How many significant digits doubles are printed with; none if the option is empty. -/
def floatPrecision? (s : Store) : Except Fault (Option Int) :=
  asField "float_precision" do
    match ← s.value? "output" "float_precision" with
    | none | some "" => pure none
    | some text => some <$> readInt text

end Store

end Reckoner.Settings
