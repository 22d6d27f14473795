import Reckoner.Token

/-!
# Errors of a calculation

Everything that can keep an expression from having a value, as a cause with its data. `stage` is
the stage of the calculation that reports it and `message` the only place where causes are put
into words. Three causes belong to no stage: a name that is in none of the tables, which only a
caller with tokens or trees of its own can bring in, an integer literal that is too long to be
converted, and a precision that is no 32-bit integer.
-/

namespace Reckoner

/-- Why an expression has no value. -/
inductive CalcError where
  /-- A character that begins no lexeme. -/
  | unexpectedChar (c : Char) (pos : Nat)
  /-- A run of digits and points that is no number, or one out of range. -/
  | invalidNumber (text : String)
  /-- A name that is not a function's. -/
  | unknownFunction (name : String)
  /-- A token that cannot stand where it stands. -/
  | unexpectedToken (found : Token) (expected : String)
  /-- The tokens end where more must follow. -/
  | unexpectedEnd (expected : String)
  /-- A call whose arguments are too few or too many. -/
  | wrongArity (function : String) (expected actual : Nat)
  /-- A quotient with divisor zero. -/
  | divisionByZero
  /-- An argument outside the domain of a function. -/
  | domain (function : String) (argument : Number)
  /-- A result that does not fit. -/
  | overflow (operation : String)
  /-- More nesting than the limit admits. -/
  | nestedTooDeeply
  /-- A name or value that is not in the table of operators or functions. -/
  | unknownKey (key : Payload)
  /-- An integer literal with more digits, leading zeros included, than are converted. -/
  | digitLimit (digits : Nat)
  /-- A number of significant digits that is out of range. -/
  | precisionRange
deriving Inhabited

/-- The stages of a calculation that report errors. -/
inductive Stage where
  | lexing | parsing | evaluation
deriving DecidableEq, Repr

/-- The stage's name in messages. -/
def Stage.name : Stage → String
  | lexing => "Lexing"
  | parsing => "Parsing"
  | evaluation => "Evaluation"

/-- An integer literal may have at most this many digits, leading zeros included. -/
def maxDigits : Nat := 4300

/-- What is said of a text with too many digits, here and for configuration values. -/
def digitLimitMessage (digits : Nat) : String :=
  "Exceeds the limit (4300 digits) for integer string conversion: value has "
    ++ toString digits ++ " digits; use sys.set_int_max_str_digits() to increase the limit"

namespace CalcError

/-- The stage that reports the error, if one does. -/
def stage? : CalcError → Option Stage
  | unexpectedChar .. | invalidNumber _ | unknownFunction _ => some .lexing
  | unexpectedToken .. | unexpectedEnd _ | wrongArity .. => some .parsing
  | divisionByZero | domain .. | overflow _ | nestedTooDeeply => some .evaluation
  | unknownKey _ | digitLimit _ | precisionRange => none

/-- The error in words. -/
def message : CalcError → String
  | unexpectedChar c pos =>
    "unexpected character " ++ Text.quoted (String.ofList [c]) ++ " at position " ++ toString pos
  | invalidNumber text => "invalid number: " ++ Text.quoted text
  | unknownFunction name => "unknown function: " ++ Text.quoted name
  | unexpectedToken found expected => "unexpected " ++ found.describe ++ ", expected " ++ expected
  | unexpectedEnd expected => "unexpected end of input, expected " ++ expected
  | wrongArity function expected actual =>
    function ++ "() takes " ++ toString expected ++ " argument" ++ (if expected = 1 then "" else "s")
      ++ ", got " ++ toString actual
  | divisionByZero => "division by zero"
  | domain function argument => function ++ "() is undefined for " ++ argument.text
  | overflow operation => "numeric overflow in " ++ operation
  | nestedTooDeeply => "expression nested too deeply"
  | unknownKey key => key.inspect
  | digitLimit digits => digitLimitMessage digits
  | precisionRange => "Python int too large to convert to C int"

end CalcError

end Reckoner
