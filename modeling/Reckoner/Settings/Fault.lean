import Reckoner.Error

/-!
# Faults in the configuration

Everything that can go wrong when configuration is read, set or asked for, as a cause with its data.
`message` is the only place where causes are put into words.
-/

namespace Reckoner.Settings

/-- Why configuration could not be read, set or answered. -/
inductive Fault where
  /-- A line in front of the first section. -/
  | missingHeading (file : String) (line : Nat) (text : String)
  /-- Lines that are no settings, with their numbers. -/
  | badLines (file : String) (lines : List (Nat × String))
  /-- A section that occurs twice in a file. -/
  | duplicateSection (file : String) (line : Nat) (sectionName : String)
  /-- An option that occurs twice in a section of a file. -/
  | duplicateOption (file : String) (line : Nat) (sectionName option : String)
  /-- A reference to an option that does not exist. -/
  | missingReference (sectionName option reference raw : String)
  /-- References that refer to references, too many times over. -/
  | deepReference (sectionName option raw : String)
  /-- A reference that is not closed. -/
  | openReference (rest : String)
  /-- A percent sign that begins nothing. -/
  | strayPercent (rest : String)
  /-- A value with a stray percent sign, which cannot be set. -/
  | unsettable (value : String) (pos : Nat)
  | notInt (text : String)
  /-- An integer with more digits than are converted. -/
  | intTooLong (digits : Nat)
  | notFloat (text : String)
  | notBool (text : String)
  /-- A file that cannot be opened. -/
  | noFile (path : String)
  /-- A value that is unfinished because its document broke off. -/
  | unfinishedValue
  /-- A reference to an unfinished value, as the part at this place of the text it belongs to. -/
  | unfinishedPart (place : Nat)
  /-- A section or another field of the configuration that is not there. -/
  | noSection (name : String)
  /-- An option that was asked for as a field. -/
  | noOption (name : String)
  /-- A section or option that was asked for as an item. -/
  | noKey (name : String)
deriving DecidableEq, Repr, Inhabited

/-- How many steps of substitution an option may take. -/
def maxSteps : Nat := 10

/-- A line number in the column that messages give it. -/
def lineLabel (line : Nat) : String := "[line " ++ Text.padLeft 2 (toString line) ++ "]"

/-- A quoted text cut off after `width` characters. -/
def quotedUpTo (width : Nat) (s : String) : String :=
  String.ofList ((Text.quotedChars s.toList).take width)

namespace Fault

/-- The fault in words. -/
def message : Fault → String
  | missingHeading file line text =>
    "File contains no section headers.\nfile: " ++ Text.quoted file ++ ", line: " ++ toString line
      ++ "\n" ++ Text.quoted text
  | badLines file lines =>
    "Source contains parsing errors: " ++ Text.quoted file ++ String.join
      (lines.map fun (line, text) => "\n\t" ++ lineLabel line ++ ": " ++ Text.quoted text)
  | duplicateSection file line sectionName =>
    "While reading from " ++ Text.quoted file ++ " " ++ lineLabel line ++ ": section "
      ++ Text.quoted sectionName ++ " already exists"
  | duplicateOption file line sectionName option =>
    "While reading from " ++ Text.quoted file ++ " " ++ lineLabel line ++ ": option "
      ++ Text.quoted option ++ " in section " ++ Text.quoted sectionName ++ " already exists"
  | missingReference sectionName option reference raw =>
    "Bad value substitution: option " ++ Text.quoted option ++ " in section "
      ++ Text.quoted sectionName ++ " contains an interpolation key " ++ Text.quoted reference
      ++ " which is not a valid option name. Raw value: " ++ Text.quoted raw
  | deepReference sectionName option raw =>
    "Recursion limit exceeded in value substitution: option " ++ Text.quoted option
      ++ " in section " ++ Text.quoted sectionName ++ " contains an interpolation key which "
      ++ "cannot be substituted in " ++ toString maxSteps ++ " steps. Raw value: "
      ++ Text.quoted raw
  | openReference rest => "bad interpolation variable reference " ++ Text.quoted rest
  | strayPercent rest => "'%' must be followed by '%' or '(', found: " ++ Text.quoted rest
  | unsettable value pos =>
    "invalid interpolation syntax in " ++ Text.quoted value ++ " at position " ++ toString pos
  | notInt text => "invalid literal for int() with base 10: " ++ quotedUpTo 200 text
  | intTooLong digits => digitLimitMessage digits
  | notFloat text => "could not convert string to float: " ++ Text.quoted text
  | notBool text => "Not a boolean: " ++ text
  | noFile path => path
  | unfinishedValue => "'list' object has no attribute 'find'"
  | unfinishedPart place =>
    "sequence item " ++ toString place ++ ": expected str instance, list found"
  | noSection name => "'ConfMod' object has no attribute '" ++ name ++ "'"
  | noOption name => "No option '" ++ name ++ "' in this section"
  | noKey name => Text.quoted name

end Fault

end Reckoner.Settings
