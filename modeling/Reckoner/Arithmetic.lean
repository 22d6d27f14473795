import Reckoner.Error

/-!
# Arithmetic

The operators and functions on numbers. Integers stay integers under `+ - *`, negation and `pow`
with an exponent that is not negative, and are computed exactly; everything else is computed on
doubles. A result that does not fit is an overflow of the operation, and an argument outside a
function's domain is reported as it was given, before any promotion.
-/

namespace Reckoner

/-- The operators between two operands. -/
inductive Operator where
  | add | sub | mul | div
deriving DecidableEq, Repr

namespace Operator

/-- All operators. -/
def all : List Operator := [.add, .sub, .mul, .div]

/-- How the operator is written. -/
def symbol : Operator → String
  | add => "+"
  | sub => "-"
  | mul => "*"
  | div => "/"

/-- The operator that is written so. -/
def ofSymbol? (s : String) : Option Operator := all.find? (·.symbol == s)

theorem ofSymbol?_symbol (op : Operator) : ofSymbol? op.symbol = some op := by
  cases op <;> decide

theorem symbol_of_ofSymbol? {s : String} {op : Operator} (h : ofSymbol? s = some op) :
    op.symbol = s := by
  simpa using List.find?_some h

/-- The exact result on integers, for the operators that have one. -/
def onInts? : Operator → Option (Int → Int → Int)
  | add => some (· + ·)
  | sub => some (· - ·)
  | mul => some (· * ·)
  | div => none

/-- The result on doubles; a quotient needs a divisor other than zero. -/
def onFloats : Operator → Float → Float → Except CalcError Float
  | add, x, y => .ok (x + y)
  | sub, x, y => .ok (x - y)
  | mul, x, y => .ok (x * y)
  | div, x, y => if y == Binary64.zero then .error .divisionByZero else .ok (x / y)

end Operator

namespace Number

/-- An integer as a number, if it fits. -/
def checkedInt (operation : String) (n : Int) : Except CalcError Number :=
  if Fits n then .ok (.int n) else .error (.overflow operation)

/-- A double as a number, if it is finite. -/
def checkedFloat (operation : String) (x : Float) : Except CalcError Number :=
  if x.isFinite then .ok (.float x) else .error (.overflow operation)

/-- An integer given from outside. -/
def ofInt (n : Int) : Except CalcError Number := checkedInt "integer arithmetic" n

/-- A double given from outside. -/
def ofFloat (x : Float) : Except CalcError Number := checkedFloat "floating point arithmetic" x

theorem valid_of_checkedInt {operation : String} {n : Int} {v : Number}
    (h : checkedInt operation n = .ok v) : v.Valid := by
  unfold checkedInt at h
  split at h
  · cases h; assumption
  · cases h

theorem valid_of_checkedFloat {operation : String} {x : Float} {v : Number}
    (h : checkedFloat operation x = .ok v) : v.Valid := by
  unfold checkedFloat at h
  split at h
  · cases h; assumption
  · cases h

/-- The number with the opposite sign. -/
def negate : Number → Except CalcError Number
  | int n => checkedInt "negation" (-n)
  | float x => ofFloat (-x)

/-- An operator applied to two numbers: on integers if both are and the operator can, else on
doubles. -/
def apply (op : Operator) (left right : Number) : Except CalcError Number :=
  match op.onInts?, left, right with
  | some f, int m, int n => checkedInt op.symbol (f m n)
  | _, _, _ => do checkedFloat op.symbol (← op.onFloats left.toFloat right.toFloat)

/-- No integer of absolute value 2 or more has a power with this exponent or a greater one that
fits. -/
def powBound : Nat := 64

/-- The power of an integer that is no greater than the base or 1 in absolute value: that of one of
the bases -1, 0 and 1, or one with exponent 0 or 1. -/
def smallPow (base : Int) (exponent : Nat) : Int :=
  if exponent = 0 then 1
  else if exponent % 2 = 0 then base * base
  else base

theorem smallPow_eq {base : Int} {exponent : Nat} (h : base.natAbs ≤ 1 ∨ exponent ≤ 1) :
    smallPow base exponent = Int.pow base exponent := by
  change smallPow base exponent = base ^ exponent
  unfold smallPow
  by_cases h0 : exponent = 0
  · rw [if_pos h0, h0, Int.pow_zero]
  · rw [if_neg h0]
    rcases h with hb | he
    · have hb : base = -1 ∨ base = 0 ∨ base = 1 := by omega
      have square : (-1 : Int) ^ 2 = 1 := rfl
      rcases hb with rfl | rfl | rfl
      · obtain ⟨k, hk | hk⟩ : ∃ k, exponent = 2 * k ∨ exponent = 2 * k + 1 :=
          ⟨exponent / 2, by omega⟩
        · rw [if_pos (by omega), hk, Int.pow_mul, square, Int.one_pow]
          rfl
        · rw [if_neg (by omega), hk, Int.pow_succ, Int.pow_mul, square, Int.one_pow]
          rfl
      · rw [Int.zero_pow h0]
        split <;> rfl
      · rw [Int.one_pow]
        split <;> rfl
    · have one : exponent = 1 := by omega
      rw [one, Int.pow_succ, Int.pow_zero, Int.one_mul]
      rfl

/-- The exact power of an integer; one that stays small is not multiplied out. -/
def exactPow (base : Int) (exponent : Nat) : Int :=
  if base.natAbs ≤ 1 ∨ exponent ≤ 1 then smallPow base exponent else Int.pow base exponent

theorem exactPow_eq (base : Int) (exponent : Nat) :
    exactPow base exponent = Int.pow base exponent := by
  unfold exactPow
  split
  · next h => exact smallPow_eq h
  · rfl

/-- The power of an integer, if it fits, by an operation that computes powers. Exponents from
`powBound` on are only computed with for the bases whose powers stay small. -/
def intPowBy {m : Type → Type} [Monad m] (power : Int → Nat → m Int) (base : Int)
    (exponent : Nat) : m (Except CalcError Number) :=
  if base.natAbs ≤ 1 ∨ exponent ≤ 1 then checkedInt "pow" <$> power base exponent
  else if powBound ≤ exponent then pure (.error (.overflow "pow"))
  else checkedInt "pow" <$> power base exponent

/-- The exact power of an integer, if it fits. -/
def intPow (base : Int) (exponent : Nat) : Except CalcError Number :=
  intPowBy (m := Id) exactPow base exponent

/-- The power is checked, however it has been computed; with an exponent from `powBound` on it is
refused unseen, unless the base is -1, 0 or 1. -/
theorem intPow_eq_ite (base : Int) (exponent : Nat) : intPow base exponent =
    if base.natAbs ≤ 1 ∨ exponent ≤ 1 then checkedInt "pow" (Int.pow base exponent)
    else if powBound ≤ exponent then .error (.overflow "pow")
    else checkedInt "pow" (Int.pow base exponent) := by
  unfold intPow intPowBy
  rw [exactPow_eq]
  rfl

/-- The power of a double. Zero has no negative powers and a negative base only whole ones; `base`
is what is reported. -/
def floatPow (base : Number) (x y : Float) : Except CalcError Number :=
  if x == Binary64.zero ∧ y < Binary64.zero then .error (.domain "pow" base)
  else if x < Binary64.zero ∧ Binary64.isIntegral y = false then .error (.domain "pow" base)
  else checkedFloat "pow" (Float.pow x y)

/-- A power: exact for integers with an exponent that is not negative, else on doubles. -/
def pow (base exponent : Number) : Except CalcError Number :=
  match base, exponent with
  | int b, int (.ofNat e) => intPow b e
  | _, _ => floatPow base base.toFloat exponent.toFloat

end Number

namespace MathFunction

/-- The double function behind a function of one argument. -/
def onFloat : MathFunction → Float → Float
  | cos => Float.cos
  | acos => Float.acos
  | sin => Float.sin
  | asin => Float.asin
  | tan => Float.tan
  | atan => Float.atan
  | sqrt => Float.sqrt
  | pow => id

/-- The arguments for which a function of one argument is defined. -/
def inDomain : MathFunction → Float → Bool
  | acos, x | asin, x => decide (-Binary64.one ≤ x) && decide (x ≤ Binary64.one)
  | sqrt, x => decide (Binary64.zero ≤ x)
  | _, _ => true

/-- A function applied to its arguments. A call with too few or too many is refused when it is read; for
a tree with such a call that was made otherwise the answer is the reader's error, as there is no other
cause for it here. -/
def apply (f : MathFunction) (args : List Number) : Except CalcError Number :=
  match f, args with
  | pow, [base, exponent] => Number.pow base exponent
  | pow, _ => .error (.wrongArity f.name f.arity args.length)
  | f, [arg] =>
    let x := arg.toFloat
    if f.inDomain x then Number.checkedFloat f.name (f.onFloat x)
    else .error (.domain f.name arg)
  | f, _ => .error (.wrongArity f.name f.arity args.length)

end MathFunction

namespace Number

/-- The operator of a symbol applied to two numbers. -/
def applySymbol (symbol : String) (left right : Number) : Except CalcError Number :=
  match Operator.ofSymbol? symbol with
  | some op => apply op left right
  | none => .error (.unknownKey (.text symbol))

/-- The function of a name applied to its arguments. -/
def applyNamed (name : String) (args : List Number) : Except CalcError Number :=
  match MathFunction.ofName? name with
  | some f => f.apply args
  | none => .error (.unknownKey (.text name))

end Number

end Reckoner
