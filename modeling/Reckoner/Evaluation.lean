import Reckoner.Arithmetic
import Reckoner.Expr

/-!
# Evaluation

The value of an expression tree. Operands are evaluated from left to right before the operator or
function is looked up, and the first error is the answer. `evalWithin` bounds how deeply
evaluations nest; `eval` gives every tree the depth it needs.
-/

namespace Reckoner

namespace Payload

/-- The number a literal stands for. A text has no value. -/
def toNumber : Payload → Except CalcError Number
  | number v => .ok v
  | text s => .error (.unknownKey (.text s))

end Payload

namespace Expr

/-- The value of a tree, for `depth` nested evaluations at most. -/
def evalWithin : (depth : Nat) → Expr → Except CalcError Number
  | 0, _ => .error .nestedTooDeeply
  | _ + 1, literal v => v.toNumber
  | depth + 1, binary op left right => do
    let x ← evalWithin depth left
    let y ← evalWithin depth right
    Number.applySymbol op x y
  | depth + 1, call f args => do
    let xs ← args.mapM (evalWithin depth)
    Number.applyNamed f xs
  | depth + 1, negate operand => do
    let x ← evalWithin depth operand
    x.negate

/-- The value of a tree. -/
def eval (e : Expr) : Except CalcError Number := e.evalWithin (e.height + 1)

end Expr

end Reckoner
