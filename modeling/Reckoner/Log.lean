import Reckoner.Text.Padding
import Reckoner.Text.Quoted

/-!
# The log

What the program logs goes through one logger, the package's, and from there to a console handler
once one has been set up. Setting up again keeps the handler and gives it a new level, format and
stream. A record is written if its level reaches that of the logger and that of the handler.
`State.textOf` is the view through which the streams are read.
-/

namespace Reckoner.Log

/-- The name of the package's logger. -/
def rootName : String := "exprcalc"

/-- The levels that have names, the ones by which they are shown first. -/
def namedLevels : List (String × Int) :=
  [("CRITICAL", 50), ("ERROR", 40), ("WARNING", 30), ("INFO", 20), ("DEBUG", 10), ("NOTSET", 0),
   ("FATAL", 50), ("WARN", 30)]

/-- The level of warnings, which stands in for a level that has none. -/
def warning : Int := 30

/-- The level of messages for the search for faults. -/
def debug : Int := 10

/-- How a level is shown. -/
def levelName (level : Int) : String :=
  match namedLevels.find? (·.2 == level) with
  | some (name, _) => name
  | none => "Level " ++ toString level

/-- The capitals of a character as far as they are ASCII letters; any other character stays. -/
def capitals (c : Char) : List Char :=
  match c.toNat with
  | 0xDF => ['S', 'S']
  | 0x131 => ['I']
  | 0x17F => ['S']
  | 0xFB00 => ['F', 'F']
  | 0xFB01 => ['F', 'I']
  | 0xFB02 => ['F', 'L']
  | 0xFB03 => ['F', 'F', 'I']
  | 0xFB04 => ['F', 'F', 'L']
  | 0xFB05 | 0xFB06 => ['S', 'T']
  | _ => [c.toUpper]

/-- The level of a name, in whatever case. -/
def levelOfName? (name : String) : Option Int :=
  namedLevels.lookup (String.ofList (name.toList.flatMap capitals))

/-- A level as it is asked for. -/
inductive LevelChoice where
  | number (level : Int)
  | named (name : String)
deriving DecidableEq, Repr

/-- The level that is meant, if one is. -/
def LevelChoice.level? : LevelChoice → Option Int
  | number level => some level
  | named name => levelOfName? name

/-- What is logged. -/
structure Record where
  logger : String
  level : Int
  message : String
deriving DecidableEq, Repr

/-! ## Formats -/

/-- The parts of a record that a format shows here: those that the record itself holds, and not the
time or the place in the program. -/
inductive RecordField where
  | levelName | levelNumber | loggerName | message
deriving DecidableEq, Repr

/-- The field of a name in a format. -/
def RecordField.ofName? (name : String) : Option RecordField :=
  match name with
  | "levelname" => some .levelName
  | "levelno" => some .levelNumber
  | "name" => some .loggerName
  | "message" => some .message
  | _ => none

/-- The text of a field. -/
def RecordField.text (r : Record) : RecordField → String
  | levelName => Log.levelName r.level
  | levelNumber => toString r.level
  | loggerName => r.logger
  | message => r.message

/-- A field in a column of a format. -/
structure Column where
  field : RecordField
  /-- Filled up on the right instead of the left. -/
  leftAligned : Bool
  width : Nat
deriving DecidableEq, Repr

/-- The field's text, filled up to the width of the column. -/
def Column.text (r : Record) (c : Column) : String :=
  let s := c.field.text r
  if c.leftAligned then Text.padRight c.width s else Text.padLeft c.width s

/-- A piece of a format: a character that stands for itself, or a column. -/
inductive FormatPiece where
  | char (c : Char)
  | column (c : Column)
deriving DecidableEq, Repr

/-- What a piece shows of a record. -/
def FormatPiece.text (r : Record) : FormatPiece → List Char
  | char c => [c]
  | column c => (c.text r).toList

/-- A mark that fills a column up on the right, and what follows it. -/
def takeAlignment : List Char → Bool × List Char
  | '-' :: cs => (true, cs)
  | cs => (false, cs)

/-- The column whose text stands behind `%(`, and what follows it. Of the columns that a format can
have, those are read that show one of the fields of `RecordField` by `s` or `d`, with a width at most;
any other stays in the line as it is written in the format. -/
def column? (cs : List Char) : Option (Column × List Char) := do
  let field ← RecordField.ofName? (String.ofList (cs.takeWhile (· != ')')))
  let (leftAligned, cs) := takeAlignment ((cs.dropWhile (· != ')')).drop 1)
  let width := Nat.ofDigitChars 10 (cs.takeWhile Char.isDigit) 0
  match cs.dropWhile Char.isDigit with
  | 's' :: rest | 'd' :: rest => some (⟨field, leftAligned, width⟩, rest)
  | _ => none

theorem length_takeAlignment_le (cs : List Char) : (takeAlignment cs).2.length ≤ cs.length := by
  unfold takeAlignment
  split <;> simp

/-- A column takes up some of the text. -/
theorem length_of_column? {cs rest : List Char} {c : Column} (h : column? cs = some (c, rest)) :
    rest.length < cs.length := by
  have closing := (List.dropWhile_suffix (l := cs) (· != ')')).length_le
  have aligned := length_takeAlignment_le ((cs.dropWhile (· != ')')).drop 1)
  have digits := (List.dropWhile_suffix
    (l := (takeAlignment ((cs.dropWhile (· != ')')).drop 1)).2) Char.isDigit).length_le
  simp only [List.length_drop] at aligned
  simp only [column?, Option.bind_eq_bind, Option.bind_eq_some_iff] at h
  obtain ⟨field, -, h⟩ := h
  split at h
  · rename_i heq
    rw [heq] at digits
    simp only [List.length_cons] at digits
    cases h
    omega
  · rename_i heq
    rw [heq] at digits
    simp only [List.length_cons] at digits
    cases h
    omega
  · cases h

/-- The pieces of a format. `%%` is a percent sign, and so is one that begins no column. -/
def formatPieces : List Char → List FormatPiece
  | [] => []
  | '%' :: '%' :: cs => .char '%' :: formatPieces cs
  | '%' :: '(' :: cs =>
    match _found : column? cs with
    | some (c, rest) => .column c :: formatPieces rest
    | none => .char '%' :: formatPieces ('(' :: cs)
  | c :: cs => .char c :: formatPieces cs
termination_by cs => cs.length
decreasing_by
  all_goals simp only [List.length_cons]
  · omega
  · have := length_of_column? _found
    omega
  · omega
  · omega

/-- The line that is written for a record. -/
def formatRecord (format : String) (r : Record) : String :=
  String.ofList ((formatPieces format.toList).flatMap (·.text r)) ++ "\n"

/-- The format of the console if none is asked for. -/
def consoleFormat : String := "%(levelname)s: %(message)s"

/-! ## The package's logger -/

/-- A handler attached to the logger. -/
inductive Attached where
  /-- One that writes nothing, so that a program that sets up no log gets none. -/
  | silent
  /-- A console handler, by its number among all that have been made. -/
  | console (index : Nat)
  /-- One of somebody else's. -/
  | foreign (id : Nat)
deriving DecidableEq, Repr

/-- How a console handler is set up. Streams are numbered. -/
structure Console where
  level : Int
  format : String
  stream : Nat
deriving DecidableEq, Repr

/-- The logger, the console handlers, and what has been written. -/
structure State where
  /-- The logger's own level; with 0 the level is inherited. -/
  level : Int := 0
  attached : List Attached := [.silent]
  /-- Records are passed on to the handlers of the loggers above. -/
  propagates : Bool := true
  /-- The console handlers that have been made, in order. -/
  consoles : List Console := []
  /-- The console handler that a set-up answers, from the first one on. -/
  current : Option Nat := none
  /-- The streams written to and what was written, in order. -/
  written : List (Nat × String) := []
deriving DecidableEq, Repr

namespace State

/-- What stands in a stream. -/
def textOf (s : State) (stream : Nat) : String :=
  String.join ((s.written.filter (·.1 == stream)).map (·.2))

/-- Writes a text to a stream, past the log. -/
def write (stream : Nat) (text : String) (s : State) : State :=
  { s with written := s.written ++ [(stream, text)] }

/-- The level from which on records are handled: the logger's own, else that of warnings. -/
def effectiveLevel (s : State) : Int := if s.level = 0 then warning else s.level

/-- Records of the level are handled. Levels from 0 down never are. -/
def isEnabledFor (s : State) (level : Int) : Bool := 0 < level && s.effectiveLevel ≤ level

/-- The logger is the package's or lies below it. -/
def isPackageLogger (name : String) : Bool :=
  name == rootName || name.startsWith (rootName ++ ".")

/-- What an attached handler writes of a record: a console handler writes it from its level on. -/
def lineOf? (s : State) (r : Record) : Attached → Option (Nat × String)
  | .console index => do
    let c ← s.consoles[index]?
    if c.level ≤ r.level then some (c.stream, formatRecord c.format r) else none
  | .silent | .foreign _ => none

/-- What is written for a record. -/
def linesOf (s : State) (r : Record) : List (Nat × String) :=
  if isPackageLogger r.logger && s.isEnabledFor r.level then s.attached.filterMap (s.lineOf? r)
  else []

/-- Logs a record: every attached handler gets it. -/
def log (r : Record) (s : State) : State := { s with written := s.written ++ s.linesOf r }

/-- The level that a set-up is to have. A name that no level has is warned of, by the handler as it
is before the set-up. -/
def resolveLevel (choice : LevelChoice) (s : State) : Int × State :=
  match choice, choice.level? with
  | _, some level => (level, s)
  | .number level, none => (level, s)
  | .named name, none =>
    (warning, s.log ⟨rootName, warning,
      "Invalid exprcalc log level " ++ Text.quoted name ++ ". Defaulting to WARNING."⟩)

/-- The handler that a set-up works on, set up as `c`: the first time a new one, which takes the place
of the silent ones, later the same again. -/
def useConsole (c : Console) (s : State) : State :=
  match s.current with
  | some index => { s with consoles := s.consoles.set index c }
  | none =>
    { s with
      attached := s.attached.filter (· != .silent) ++ [.console s.consoles.length]
      propagates := false
      consoles := s.consoles ++ [c]
      current := some s.consoles.length }

/-- Sets up the console handler. -/
def setUp (choice : LevelChoice) (format : String) (stream : Nat) (s : State) : State :=
  let (level, s) := s.resolveLevel choice
  let s := { s with level := level }
  let s := s.useConsole ⟨level, format, stream⟩
  s.log ⟨rootName, debug, "exprcalc console logging configured to level " ++ levelName level⟩

end State

end Reckoner.Log
