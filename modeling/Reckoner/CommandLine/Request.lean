import Reckoner.CommandLine.Similarity
import Reckoner.Text.Padding
import Reckoner.Text.Quoted

/-!
# Requests

The arguments of the command line as a request. Options may stand anywhere among the words of the
expression until `--`, long ones with their value behind an equals sign or in the next argument,
short ones joined to one another and to their value. Reading goes through the arguments once, from
left to right; what is still missing at the end is complained about then.
-/

namespace Reckoner.CommandLine

/-- An option without a value. -/
inductive Switch where
  | interactive | tokens | ast | verbose | help
deriving DecidableEq, Repr

/-- An option with a value. -/
inductive Setting where
  | config | logLevel
deriving DecidableEq, Repr

/-- An option, in one row of the help text. -/
structure OptionRow where
  short : Option Char := none
  long : String
  kind : Switch ⊕ Setting
  /-- What stands for the value in the help text. -/
  value : String := ""
  help : String

/-- All options, in the order of the help text. -/
def optionRows : List OptionRow :=
  [{ short := 'i', long := "--interactive", kind := .inl .interactive,
     help := "read expressions from stdin, one per line" },
   { long := "--tokens", kind := .inl .tokens, help := "print the token stream" },
   { long := "--ast", kind := .inl .ast, help := "print the syntax tree" },
   { short := 'c', long := "--config", kind := .inr .config, value := "FILE",
     help := "additional configuration file" },
   { short := 'v', long := "--verbose", kind := .inl .verbose,
     help := "log debug output to stderr" },
   { long := "--log-level", kind := .inr .logLevel, value := "TEXT",
     help := "log level (default: from configuration, WARNING)" },
   { long := "--help", kind := .inl .help, help := "Show this message and exit." }]

/-- The option of a long name. -/
def findLong? (name : String) : Option (Switch ⊕ Setting) :=
  (optionRows.find? (·.long == name)).map (·.kind)

/-- The option of a short name. -/
def findShort? (c : Char) : Option (Switch ⊕ Setting) :=
  (optionRows.find? (·.short == some c)).map (·.kind)

/-! ## The help text -/

/-- How the command is called. -/
def usageLine : String := "Usage: exprcalc [OPTIONS] [EXPRESSION]...\n"

/-- The names of an option and its value. -/
def OptionRow.label (row : OptionRow) : String :=
  (match row.short with
    | some c => String.ofList ['-', c, ',', ' ']
    | none => "") ++ row.long ++ (if row.value = "" then "" else " " ++ row.value)

/-- What `--help` prints. -/
def helpText : String :=
  let width := (optionRows.map fun row => row.label.length).foldl max 0
  let rows := optionRows.map fun row =>
    "  " ++ Text.padRight width row.label ++ "  " ++ row.help ++ "\n"
  usageLine ++ "\n  Evaluate EXPRESSION and print the result.\n\n"
    ++ "  All arguments are joined with spaces. Put -- in front of an expression that\n"
    ++ "  starts with a minus sign.\n\nOptions:\n" ++ String.join rows

/-! ## Complaints -/

/-- What is wrong with a command line, or with what it refers to. -/
inductive Complaint where
  /-- An option that does not exist, and those that resemble it. -/
  | noSuchOption (name : String) (similar : List String)
  /-- An option whose value is missing. -/
  | valueMissing (name : String)
  /-- A value for an option that takes none. -/
  | valueUnwanted (name : String)
  /-- A configuration file that does not exist. -/
  | noSuchFile (path : String)
  /-- A directory in place of a configuration file. -/
  | isDirectory (path : String)
  | noExpression
  /-- The configured precision is no integer. -/
  | badPrecision
deriving DecidableEq, Repr

namespace Complaint

/-- The complaint in words. -/
def message : Complaint → String
  | noSuchOption name similar =>
    let names := ", ".intercalate similar
    "No such option: " ++ name ++
      (match similar.length with
        | 0 => ""
        | 1 => " Did you mean " ++ names ++ "?"
        | _ => " (Possible options: " ++ names ++ ")")
  | valueMissing name => "Option " ++ Text.quoted name ++ " requires an argument."
  | valueUnwanted name => "Option " ++ Text.quoted name ++ " does not take a value."
  | noSuchFile path =>
    "Invalid value for '-c' / '--config': File " ++ Text.quoted path ++ " does not exist."
  | isDirectory path =>
    "Invalid value for '-c' / '--config': File " ++ Text.quoted path ++ " is a directory."
  | noExpression => "missing EXPRESSION argument"
  | badPrecision => "output.float_precision must be an integer"

/-- The complaint comes with a reminder of how the command is called. -/
def remindsOfUsage : Complaint → Bool
  | noSuchOption .. | noSuchFile _ | isDirectory _ | noExpression => true
  | valueMissing _ | valueUnwanted _ | badPrecision => false

/-- What is written about the complaint. -/
def report (c : Complaint) : String :=
  (if c.remindsOfUsage then usageLine ++ "Try 'exprcalc --help' for help.\n\n" else "")
    ++ "Error: " ++ c.message ++ "\n"

/-- The exit code: 2 if the command line is at fault, 1 if the configuration is. -/
def exitCode : Complaint → Nat
  | badPrecision => 1
  | _ => 2

end Complaint

/-! ## Reading the arguments -/

/-- What the command line asks for. -/
structure Request where
  interactive : Bool := false
  tokens : Bool := false
  ast : Bool := false
  verbose : Bool := false
  help : Bool := false
  config : Option String := none
  logLevel : Option String := none
  /-- The words of the expression. -/
  words : List String := []
deriving DecidableEq, Repr

namespace Request

/-- The request with a switch turned on. -/
def turnOn (r : Request) : Switch → Request
  | .interactive => { r with interactive := true }
  | .tokens => { r with tokens := true }
  | .ast => { r with ast := true }
  | .verbose => { r with verbose := true }
  | .help => { r with help := true }

/-- The request with a value for an option; of several values the last one counts. -/
def assign (r : Request) (value : String) : Setting → Request
  | .config => { r with config := some value }
  | .logLevel => { r with logLevel := some value }

/-- The request with one more word. -/
def addWord (r : Request) (word : String) : Request := { r with words := r.words ++ [word] }

end Request

/-- How far the arguments have been read. -/
structure Reading where
  request : Request := {}
  /-- The option, as it was named, whose value the next argument is. -/
  pending : Option (String × Setting) := none
  /-- All further arguments are words. -/
  onlyWords : Bool := false
deriving DecidableEq, Repr

namespace Reading

/-- Turns a switch on. -/
def turnOn (s : Reading) (w : Switch) : Reading := { s with request := s.request.turnOn w }

/-- Gives an option its value. -/
def assign (s : Reading) (value : String) (o : Setting) : Reading :=
  { s with request := s.request.assign value o, pending := none }

/-- Reads an option by its long name, with the value behind the equals sign if there is one. -/
def long (s : Reading) (name : String) (value : Option String) :
    Switch ⊕ Setting → Except Complaint Reading
  | .inl w => if value.isSome then .error (.valueUnwanted name) else .ok (s.turnOn w)
  | .inr o =>
    match value with
    | some value => .ok (s.assign value o)
    | none => .ok { s with pending := some (name, o) }

/-- Reads short options that are joined; what follows one that takes a value is its value. -/
def short (s : Reading) : List Char → Except Complaint Reading
  | [] => .ok s
  | c :: cs =>
    let name := String.ofList ['-', c]
    match findShort? c with
    | none => .error (.noSuchOption name [])
    | some (.inl w) => short (s.turnOn w) cs
    | some (.inr o) =>
      if cs = [] then .ok { s with pending := some (name, o) }
      else .ok (s.assign (String.ofList cs) o)

/-- Reads an argument that is an option. The part in front of an equals sign may be a long name; if
it is none, two hyphens in front make it an unknown one, and one hyphen makes the argument a row of
short options. -/
def option (s : Reading) (arg : List Char) : Except Complaint Reading :=
  let name := String.ofList (arg.takeWhile (· != '='))
  let value := match arg.dropWhile (· != '=') with
    | [] => none
    | _ :: cs => some (String.ofList cs)
  match findLong? name, arg with
  | some kind, _ => s.long name value kind
  | none, '-' :: '-' :: _ =>
    .error (.noSuchOption name (suggestions name (optionRows.map (·.long))))
  | none, arg => s.short (arg.drop 1)

/-- Reads one argument. -/
def argument (s : Reading) (arg : String) : Except Complaint Reading :=
  match s.pending with
  | some (_, o) => .ok (s.assign arg o)
  | none =>
    if s.onlyWords then .ok { s with request := s.request.addWord arg }
    else if arg = "--" then .ok { s with onlyWords := true }
    else match arg.toList with
      | '-' :: c :: cs => s.option ('-' :: c :: cs)
      | _ => .ok { s with request := s.request.addWord arg }

/-- The request that was read, if no value is missing. -/
def finish (s : Reading) : Except Complaint Request :=
  match s.pending with
  | some (name, _) => .error (.valueMissing name)
  | none => .ok s.request

end Reading

/-- The request of a command line. -/
def Request.read (args : List String) : Except Complaint Request := do
  (← args.foldlM Reading.argument {}).finish

end Reckoner.CommandLine
