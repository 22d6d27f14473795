import Reckoner.Evaluation
import Reckoner.Parser

/-!
# Calculation

From the text of an expression to its value. The tokens are made as the parser asks for them, so of
two errors in a text the one that is met first in this order of work is the answer.
-/

namespace Reckoner

/-- How deeply operands may nest in a text, and how high a tree may be, by default. -/
def nestingLimit : Nat := 1000

/-- The tree that a text spells. -/
def parseText (limit : Nat) (text : String) : Except CalcError Expr :=
  (TokenStream.ofText text).parse limit

/-- The tree that a complete sequence of tokens spells. -/
def parseTokens (limit : Nat) (ts : List Token) : Except CalcError Expr :=
  (TokenStream.ofTokens ts).parse limit

/-- The value of the expression in a text. -/
def calculate (limit : Nat) (text : String) : Except CalcError Number := do
  let e ← parseText limit text
  e.evalWithin limit

end Reckoner
