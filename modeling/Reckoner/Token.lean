import Reckoner.Number
import Reckoner.Text.Padding
import Reckoner.Text.Quoted

/-!
# Tokens

What the parser reads: a kind, a value and the place of the lexeme in the text. The lexer makes
tokens of six kinds only, but a token may be built with any kind and value, and the parser answers
for all of them.
-/

namespace Reckoner

/-- The functions an expression can call. -/
inductive MathFunction where
  | cos | acos | sin | asin | tan | atan | sqrt | pow
deriving DecidableEq, Repr

namespace MathFunction

/-- All functions, in the order of their table. -/
def all : List MathFunction := [.cos, .acos, .sin, .asin, .tan, .atan, .sqrt, .pow]

/-- The name by which an expression calls the function. -/
def name : MathFunction → String
  | cos => "cos"
  | acos => "acos"
  | sin => "sin"
  | asin => "asin"
  | tan => "tan"
  | atan => "atan"
  | sqrt => "sqrt"
  | pow => "pow"

/-- How many arguments a call has. -/
def arity : MathFunction → Nat
  | pow => 2
  | _ => 1

/-- The function of a name. -/
def ofName? (s : String) : Option MathFunction := all.find? (·.name == s)

theorem ofName?_name (f : MathFunction) : ofName? f.name = some f := by
  cases f <;> decide

theorem name_of_ofName? {s : String} {f : MathFunction} (h : ofName? s = some f) : f.name = s := by
  simpa using List.find?_some h

end MathFunction

/-- The kinds of tokens. -/
inductive TokenKind where
  | number | operator | function | lparen | rparen | comma
  /-- A kind that no lexeme has. -/
  | other (name : String)
deriving DecidableEq, Repr, Inhabited

/-- The word for a kind in listings. -/
def TokenKind.name : TokenKind → String
  | number => "number"
  | operator => "operator"
  | function => "function"
  | lparen => "lparen"
  | rparen => "rparen"
  | comma => "comma"
  | other name => name

/-- The value of a token: a number, or the text of the lexeme. -/
inductive Payload where
  | number (v : Number)
  | text (s : String)
deriving Inhabited

namespace Payload

/-- A number equals a number, a text a text. -/
def same : Payload → Payload → Bool
  | number v, number w => v == w
  | text s, text t => s == t
  | _, _ => false

instance : BEq Payload := ⟨same⟩

/-- As printed on its own. -/
def plain : Payload → String
  | number v => v.text
  | text s => s

/-- As shown in diagnostics. -/
def inspect : Payload → String
  | number v => v.inspect
  | text s => Text.quoted s

/-- The function whose name the value is. -/
def function? : Payload → Option MathFunction
  | number _ => none
  | text s => MathFunction.ofName? s

end Payload

/-- A token. -/
structure Token where
  kind : TokenKind
  value : Payload
  /-- Offset of the lexeme in the text, in characters. -/
  pos : Nat := 0
deriving Inhabited

namespace Token

/-- Tokens are equal if their kinds and values are; where they stood does not count. -/
def same (a b : Token) : Bool := a.kind == b.kind && a.value == b.value

instance : BEq Token := ⟨same⟩

/-- The token in diagnostics. -/
def inspect (t : Token) : String :=
  "Token(" ++ Text.quoted t.kind.name ++ ", " ++ t.value.inspect ++ ")"

/-- The token as error messages name it. -/
def describe (t : Token) : String :=
  match t.kind with
  | .number => "number " ++ t.value.plain
  | .function => "function " ++ t.value.inspect
  | _ => t.value.inspect

/-- The token's line in a listing: offset, kind and value in columns. -/
def line (t : Token) : String :=
  Text.padLeft 4 (String.ofList (Nat.toDigits 10 t.pos)) ++ " " ++ Text.padRight 9 t.kind.name ++ " "
    ++ t.value.plain ++ "\n"

/-- The listing of a token sequence, a line for each. -/
def listing (ts : List Token) : String := String.join (ts.map line)

/-- A token sequence on one line, in brackets. -/
def inspectAll (ts : List Token) : String :=
  "[" ++ ", ".intercalate (ts.map inspect) ++ "]"

end Token

end Reckoner
