import Reckoner.Evaluation
import Reckoner.Proofs.ExactValues

/-!
# Elementary functions

The values of the trigonometric functions and of powers of doubles come from outside. A library of such
functions is an `Elementary`, and here is evaluation over a library: the same steps with its functions
in their place, so over the standard library it is the evaluation that runs (`evalWithin_standard`). What
a result owes to the library is then a law that the library keeps.

The root is no part of a library, since its values are known.
-/

namespace Reckoner

/-- Functions on doubles whose values come from outside. -/
structure Elementary where
  /-- The functions of one argument. -/
  function : MathFunction → Float → Float
  /-- The power of a base with an exponent. -/
  power : Float → Float → Float

namespace Elementary

/-- The functions that evaluation uses. -/
def standard : Elementary := ⟨MathFunction.onFloat, Float.pow⟩

section Evaluation

variable (lib : Elementary)

/-- The double function behind a function of one argument. -/
def onFloat : MathFunction → Float → Float
  | .sqrt => Float.sqrt
  | f => lib.function f

/-- `Number.floatPow` with the powers of the library. -/
def floatPow (base : Number) (x y : Float) : Except CalcError Number :=
  if x == Binary64.zero ∧ y < Binary64.zero then .error (.domain "pow" base)
  else if x < Binary64.zero ∧ Binary64.isIntegral y = false then .error (.domain "pow" base)
  else Number.checkedFloat "pow" (lib.power x y)

/-- `Number.pow` with the powers of the library. -/
def pow (base exponent : Number) : Except CalcError Number :=
  match base, exponent with
  | .int b, .int (.ofNat e) => Number.intPow b e
  | _, _ => lib.floatPow base base.toFloat exponent.toFloat

/-- `MathFunction.apply` with the functions of the library. -/
def apply (f : MathFunction) (args : List Number) : Except CalcError Number :=
  match f, args with
  | .pow, [base, exponent] => lib.pow base exponent
  | .pow, _ => .error (.wrongArity f.name f.arity args.length)
  | f, [arg] =>
    let x := arg.toFloat
    if f.inDomain x then Number.checkedFloat f.name (lib.onFloat f x)
    else .error (.domain f.name arg)
  | f, _ => .error (.wrongArity f.name f.arity args.length)

/-- `Number.applyNamed` with the functions of the library. -/
def applyNamed (name : String) (args : List Number) : Except CalcError Number :=
  match MathFunction.ofName? name with
  | some f => lib.apply f args
  | none => .error (.unknownKey (.text name))

/-- `Expr.evalWithin` with the functions of the library. -/
def evalWithin : (depth : Nat) → Expr → Except CalcError Number
  | 0, _ => .error .nestedTooDeeply
  | _ + 1, .literal v => v.toNumber
  | depth + 1, .binary op left right => do
    let x ← evalWithin depth left
    let y ← evalWithin depth right
    Number.applySymbol op x y
  | depth + 1, .call f args => do
    let xs ← args.mapM (evalWithin depth)
    lib.applyNamed f xs
  | depth + 1, .negate operand => do
    let x ← evalWithin depth operand
    x.negate

end Evaluation

/-! ## The standard library -/

theorem pow_standard : standard.pow = Number.pow := rfl

theorem apply_standard (f : MathFunction) : standard.apply f = f.apply := by
  funext args
  rcases args with _ | ⟨x, _ | ⟨y, _ | ⟨z, args⟩⟩⟩ <;> cases f <;> rfl

theorem applyNamed_standard (name : String) : standard.applyNamed name = Number.applyNamed name := by
  funext args
  unfold applyNamed Number.applyNamed
  cases MathFunction.ofName? name with
  | none => rfl
  | some f => exact congrFun (apply_standard f) args

/-- **Evaluation over the standard library is evaluation.** -/
theorem evalWithin_standard (depth : Nat) : standard.evalWithin depth = Expr.evalWithin depth := by
  induction depth with
  | zero => rfl
  | succ depth ih =>
    funext e
    cases e with
    | literal v => rfl
    | binary op l r => rw [evalWithin, Expr.evalWithin, ih]
    | call f args => rw [evalWithin, Expr.evalWithin, ih, applyNamed_standard]
    | negate e => rw [evalWithin, Expr.evalWithin, ih]

/-! ## A library for examples -/

/-- Right about the functions at zero and about the powers of -1 and 1. -/
def sample : Elementary where
  function
    | .cos, _ => Binary64.one
    | .acos, _ => Binary64.ofWord false 0x3FF921FB54442D18
    | _, x => x
  power x y :=
    if Odd ⌊Binary64.toRat y⌋ then x else Binary64.ofWord false (Binary64.magnitude x)

end Elementary

end Reckoner
