import Reckoner.Proofs.Doubles
import Reckoner.Proofs.Evaluation
import Reckoner.Segment

/-!
# Traps

The primitive operations under the calculation, such as division, square roots, the reading of
numerals and looking up a name, are not made for all arguments: each has traps of its own. Here they
are given with their traps, and lexing and evaluation are built on them with the checks that stand in
front of each. The checks suffice: a segment makes what it makes without traps (`token?_eq`), and a
well-formed tree has the value it has without traps (`evalWithin_eq`). What is left are the causes
that belong to no stage, of which only the limit on digits can be met in a text.
-/

namespace Reckoner

/-- What a primitive operation reports on an argument that it is not made for. -/
inductive Trap where
  /-- A text that is no numeral or too long, or a number outside the domain of a function. -/
  | value
  | zeroDivision
  /-- A number beyond the largest double. -/
  | range
  /-- A name that a table does not have. -/
  | key
  /-- A function called with too few or too many arguments. -/
  | arguments
deriving DecidableEq, Repr

/-- Why a calculation ends without a value: it reports an error, or a primitive operation traps. -/
inductive Stop where
  | error (e : CalcError)
  | trap (t : Trap)

/-- An error as the end of a calculation. Causes that belong to no stage are traps. -/
def CalcError.stop : CalcError → Stop
  | unknownKey _ => .trap .key
  | digitLimit _ => .trap .value
  | precisionRange => .trap .range
  | e => .error e

/-- A calculation on primitive operations. -/
abbrev Trapping := Except Stop

namespace Trapping

open Number (checkedInt checkedFloat)

variable {α β : Type}

/-- A calculation without primitive operations. -/
def of (x : Except CalcError α) : Trapping α := x.mapError CalcError.stop

/-- Reports an error. -/
def fail (e : CalcError) : Trapping α := .error (.error e)

/-! ## Primitive operations -/

/-- The functions of one argument that trap on a number. -/
def undefinedAt : MathFunction → Float → Bool
  | .acos, x | .asin, x => decide (x < -Binary64.one) || decide (Binary64.one < x)
  | .sqrt, x => decide (x < Binary64.zero)
  | .cos, x | .sin, x | .tan, x => x.isInf
  | _, _ => false

namespace Primitive

/-- The integer with the given digits. -/
def integer (text : List Char) : Trapping Int :=
  match Numeral.ofChars? text with
  | some ⟨whole, none⟩ =>
    if whole.length ≤ maxDigits then .ok (Numeral.natValue whole) else .error (.trap .value)
  | _ => .error (.trap .value)

/-- The double nearest to a decimal fraction; infinity for large ones. -/
def double (text : List Char) : Trapping Float :=
  match Numeral.ofChars? text with
  | some ⟨whole, some fraction⟩ =>
    .ok (Binary64.ofFraction false (Numeral.natValue (whole ++ fraction))
      (powerOfTen fraction.length))
  | _ => .error (.trap .value)

/-- The double nearest to an integer. -/
def promote (n : Int) : Trapping Float :=
  if (Binary64.ofInt n).isFinite then .ok (Binary64.ofInt n) else .error (.trap .range)

def divide (x y : Float) : Trapping Float :=
  if y == Binary64.zero then .error (.trap .zeroDivision) else .ok (x / y)

def function (f : MathFunction) (x : Float) : Trapping Float :=
  if undefinedAt f x then .error (.trap .value) else .ok (f.onFloat x)

def power (x y : Float) : Trapping Float :=
  if x == Binary64.zero ∧ y < Binary64.zero then .error (.trap .value)
  else if x < Binary64.zero ∧ Binary64.isIntegral y = false then .error (.trap .value)
  else if (Float.pow x y).isFinite then .ok (Float.pow x y) else .error (.trap .range)

end Primitive

/-! ## Lexing -/

/-- The number that the text of a literal stands for. -/
def literal (text : List Char) : Trapping Number :=
  let refused : Trapping Number := fail (.invalidNumber (String.ofList text))
  match Numeral.ofChars? text with
  | none => refused
  | some ⟨_, some _⟩ => do
    let x ← Primitive.double text
    if x.isFinite then pure (.float x) else refused
  | some ⟨whole, none⟩ =>
    if Numeral.maxSignificantDigits < Numeral.significantDigits whole then refused
    else do
      let n ← Primitive.integer text
      if Number.Fits n then pure (.int n) else refused

/-- The token a segment makes. -/
def token? (s : Segment) : Trapping (Option Token) :=
  match s.cls with
  | .numeral => (literal s.chars).map fun v => some ⟨.number, .number v, s.pos⟩
  | _ => of s.token?

/-! ## Evaluation -/

/-- The double an operand is promoted to. -/
def toFloat : Number → Trapping Float
  | .int n => do
    let x ← Primitive.promote n
    if x.isFinite then pure x else fail (.overflow "floating point arithmetic")
  | .float x => pure x

/-- An operator on doubles. -/
def onFloats : Operator → Float → Float → Trapping Float
  | .add, x, y => pure (x + y)
  | .sub, x, y => pure (x - y)
  | .mul, x, y => pure (x * y)
  | .div, x, y => if y == Binary64.zero then fail .divisionByZero else Primitive.divide x y

/-- An operator applied to two numbers. -/
def apply (op : Operator) (left right : Number) : Trapping Number :=
  match op.onInts?, left, right with
  | some f, .int m, .int n => of (checkedInt op.symbol (f m n))
  | _, _, _ => do
    let x ← toFloat left
    let y ← toFloat right
    let z ← onFloats op x y
    of (checkedFloat op.symbol z)

/-- The power of a double; `base` is what is reported. The trap of a power that is too large is
caught. -/
def floatPow (base : Number) (x y : Float) : Trapping Number :=
  if x == Binary64.zero ∧ y < Binary64.zero then fail (.domain "pow" base)
  else if x < Binary64.zero ∧ Binary64.isIntegral y = false then fail (.domain "pow" base)
  else match Primitive.power x y with
    | .ok z => of (checkedFloat "pow" z)
    | .error (.trap .range) => fail (.overflow "pow")
    | .error stop => .error stop

/-- A power: an integer with a natural exponent has no traps. -/
def pow (base exponent : Number) : Trapping Number :=
  match base, exponent with
  | .int b, .int (.ofNat e) => of (Number.intPow b e)
  | _, _ => do
    let x ← toFloat base
    let y ← toFloat exponent
    floatPow base x y

/-- A function applied to its arguments. -/
def applyFunction (f : MathFunction) (args : List Number) : Trapping Number :=
  match f, args with
  | .pow, [base, exponent] => pow base exponent
  | .pow, _ => .error (.trap .arguments)
  | f, [arg] => do
    let x ← toFloat arg
    if f.inDomain x then
      let z ← Primitive.function f x
      of (checkedFloat f.name z)
    else fail (.domain f.name arg)
  | _, _ => .error (.trap .arguments)

/-- The operator of a symbol applied to two numbers. -/
def applySymbol (symbol : String) (left right : Number) : Trapping Number :=
  match Operator.ofSymbol? symbol with
  | some op => apply op left right
  | none => .error (.trap .key)

/-- The function of a name applied to its arguments. -/
def applyNamed (name : String) (args : List Number) : Trapping Number :=
  match MathFunction.ofName? name with
  | some f => applyFunction f args
  | none => .error (.trap .key)

/-- The value of a tree, for `depth` nested evaluations at most. -/
def evalWithin : (depth : Nat) → Expr → Trapping Number
  | 0, _ => fail .nestedTooDeeply
  | _ + 1, .literal v => of v.toNumber
  | depth + 1, .binary op left right => do
    let x ← evalWithin depth left
    let y ← evalWithin depth right
    applySymbol op x y
  | depth + 1, .call f args => do
    let xs ← args.mapM (evalWithin depth)
    applyNamed f xs
  | depth + 1, .negate operand => do
    let x ← evalWithin depth operand
    of x.negate

/-! ## No trap is reached -/

section Of

variable {α β : Type}

theorem of_error (e : CalcError) : of (.error e : Except CalcError α) = .error e.stop := rfl

/-- Where no step traps on what has been calculated so far, none traps at all. -/
theorem of_bind {x : Except CalcError α} {f : α → Trapping β} {g : α → Except CalcError β}
    (h : ∀ a, x = .ok a → f a = of (g a)) : of x >>= f = of (x >>= g) := by
  cases x with
  | ok a => exact h a rfl
  | error e => rfl

theorem of_mapM {f : α → Trapping β} {g : α → Except CalcError β} {as : List α}
    (h : ∀ a ∈ as, f a = of (g a)) : as.mapM f = of (as.mapM g) := by
  induction as with
  | nil => rfl
  | cons a as ih =>
    rw [List.mapM_cons, List.mapM_cons, h a List.mem_cons_self]
    refine of_bind fun b _ => ?_
    rw [ih fun a' ha' => h a' (List.mem_cons_of_mem a ha')]
    exact of_bind fun bs _ => rfl

end Of

/-- To read a numeral traps on nothing but too many digits, since its pattern has been checked. -/
theorem literal_eq (text : List Char) : literal text = of (Number.ofLiteral text) := by
  unfold literal Number.ofLiteral Primitive.double Primitive.integer
  rcases Numeral.ofChars? text with _ | ⟨whole, _ | fraction⟩
  · rfl
  · dsimp only
    by_cases hlong : Numeral.maxSignificantDigits < Numeral.significantDigits whole
    · rw [if_pos hlong, if_pos hlong]
      rfl
    · rw [if_neg hlong, if_neg hlong]
      by_cases hdigits : whole.length ≤ maxDigits
      · rw [if_pos hdigits, if_neg (Nat.not_lt_of_le hdigits)]
        change (if _ then _ else _) = of (if _ then _ else _)
        split <;> rfl
      · rw [if_neg hdigits, if_pos (Nat.lt_of_not_le hdigits)]
        rfl
  · change (if _ then _ else _) = of (if _ then _ else _)
    split <;> rfl

/-- No other trap is met in making a token of a segment. -/
theorem token?_eq (s : Segment) : token? s = of s.token? := by
  unfold token?
  split
  · next hcls =>
    rw [literal_eq, Segment.token?, hcls]
    cases Number.ofLiteral s.chars <;> rfl
  · rfl

/-- Every integer that fits has a double nearest to it, so promotion traps on none of them. -/
theorem toFloat_eq {v : Number} (h : v.Valid) : toFloat v = .ok v.toFloat := by
  cases v with
  | int n =>
    have hfinite := Binary64.isFinite_ofInt h
    rw [toFloat, Primitive.promote, if_pos hfinite]
    exact if_pos hfinite
  | float x => rfl

/-- The divisor is checked before it is divided by. -/
theorem onFloats_eq (op : Operator) (x y : Float) : onFloats op x y = of (op.onFloats x y) := by
  cases op with
  | div =>
    rw [onFloats, Operator.onFloats, Primitive.divide]
    by_cases hzero : (y == Binary64.zero) = true
    · rw [if_pos hzero, if_pos hzero]
      rfl
    · rw [if_neg hzero, if_neg hzero, if_neg hzero]
      rfl
  | _ => rfl

/-- Operators on valid numbers do not trap. -/
theorem apply_eq (op : Operator) {x y : Number} (hx : x.Valid) (hy : y.Valid) :
    apply op x y = of (Number.apply op x y) := by
  have hfloats : (do
        let x ← toFloat x
        let y ← toFloat y
        let z ← onFloats op x y
        of (checkedFloat op.symbol z)) =
      of (do checkedFloat op.symbol (← op.onFloats x.toFloat y.toFloat)) := by
    rw [toFloat_eq hx, toFloat_eq hy]
    change onFloats op x.toFloat y.toFloat >>= _ = _
    rw [onFloats_eq]
    exact of_bind fun z _ => rfl
  unfold apply Number.apply
  cases op.onInts? with
  | none => exact hfloats
  | some f =>
    cases x with
    | float x => exact hfloats
    | int m =>
      cases y with
      | float y => exact hfloats
      | int n => rfl

/-- Bases and exponents that trap are refused before, and the trap of a large power is caught. -/
theorem floatPow_eq (base : Number) (x y : Float) :
    floatPow base x y = of (Number.floatPow base x y) := by
  unfold floatPow Number.floatPow Primitive.power
  by_cases hzero : x == Binary64.zero ∧ y < Binary64.zero
  · simp only [if_pos hzero]
    rfl
  by_cases hnegative : x < Binary64.zero ∧ Binary64.isIntegral y = false
  · simp only [if_neg hzero, if_pos hnegative]
    rfl
  simp only [if_neg hzero, if_neg hnegative]
  by_cases hfinite : (Float.pow x y).isFinite = true
  · rw [if_pos hfinite]
  · rw [if_neg hfinite, checkedFloat, if_neg hfinite]
    rfl

/-- Powers of valid numbers do not trap. -/
theorem pow_eq {x y : Number} (hx : x.Valid) (hy : y.Valid) : pow x y = of (Number.pow x y) := by
  have hfloats : (do
        let z ← toFloat x
        let w ← toFloat y
        floatPow x z w) = of (Number.floatPow x x.toFloat y.toFloat) := by
    rw [toFloat_eq hx, toFloat_eq hy]
    exact floatPow_eq x x.toFloat y.toFloat
  rcases x with b | x
  · rcases y with (e | e) | y
    · rfl
    · exact hfloats
    · exact hfloats
  · exact hfloats

/-- In its domain a function has no traps. -/
theorem undefinedAt_eq_false {f : MathFunction} {x : Float} (hfinite : x.isFinite = true)
    (h : f.inDomain x = true) : undefinedAt f x = false := by
  cases f with
  | acos | asin =>
    simp only [MathFunction.inDomain, Bool.and_eq_true, decide_eq_true_eq] at h
    simp [undefinedAt, Binary64.not_lt_of_le h.1, Binary64.not_lt_of_le h.2]
  | sqrt =>
    simp only [MathFunction.inDomain, decide_eq_true_eq] at h
    simp [undefinedAt, Binary64.not_lt_of_le h]
  | cos | sin | tan => exact Binary64.isInf_of_isFinite hfinite
  | atan | pow => rfl

theorem function_eq (f : MathFunction) {x : Number} (hx : x.Valid) :
    (do
      let y ← toFloat x
      if f.inDomain y then
        let z ← Primitive.function f y
        of (checkedFloat f.name z)
      else fail (.domain f.name x)) =
    of (if f.inDomain x.toFloat then checkedFloat f.name (f.onFloat x.toFloat)
      else .error (.domain f.name x)) := by
  rw [toFloat_eq hx]
  change (if _ then _ else _) = _
  by_cases h : f.inDomain x.toFloat = true
  · have hdefined := undefinedAt_eq_false (Number.isFinite_toFloat hx) h
    rw [if_pos h, if_pos h, Primitive.function, hdefined]
    rfl
  · rw [if_neg h, if_neg h]
    rfl

theorem applyFunction_eq {f : MathFunction} {xs : List Number} (harity : xs.length = f.arity)
    (hxs : ∀ x ∈ xs, x.Valid) : applyFunction f xs = of (f.apply xs) := by
  cases f with
  | pow =>
    obtain ⟨x, y, rfl⟩ := exists_pair harity
    exact pow_eq (hxs x (by simp)) (hxs y (by simp))
  | _ =>
    obtain ⟨x, rfl⟩ := List.length_eq_one_iff.mp harity
    exact function_eq _ (hxs x (by simp))

/-- The evaluation of a well-formed tree does not trap, on any depth. -/
theorem evalWithin_eq {e : Expr} (h : e.WellFormed) (depth : Nat) :
    evalWithin depth e = of (e.evalWithin depth) := by
  induction depth generalizing e with
  | zero => rfl
  | succ depth ih =>
    cases h with
    | literal h => rfl
    | binary op hl hr =>
      rw [evalWithin, Expr.evalWithin, ih hl]
      refine of_bind fun x hx => ?_
      rw [ih hr]
      refine of_bind fun y hy => ?_
      rw [applySymbol, Operator.ofSymbol?_symbol, Number.applySymbol_symbol]
      exact apply_eq op ((hl.evaluates depth).ok hx) ((hr.evaluates depth).ok hy)
    | call f harity hargs =>
      rw [evalWithin, Expr.evalWithin, of_mapM fun a ha => ih (hargs a ha)]
      refine of_bind fun xs hxs => ?_
      rw [applyNamed, MathFunction.ofName?_name, Number.applyNamed_name]
      have hargs := Evaluates.mapM (E := fun _ => True) fun a ha =>
        ((hargs a ha).evaluates depth).mono fun _ _ => trivial
      obtain ⟨hlength, hvalid⟩ := hargs.ok hxs
      exact applyFunction_eq (hlength.trans harity) hvalid
    | negate h =>
      rw [evalWithin, Expr.evalWithin, ih h]
      exact of_bind fun x _ => rfl

end Trapping

end Reckoner
