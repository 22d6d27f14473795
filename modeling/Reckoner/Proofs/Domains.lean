import Reckoner.Proofs.ExactIntegers
import Reckoner.Proofs.ExactValues

/-!
# Domains

The checks in front of a division, a root, an inverse function or a power look at operands that have
been promoted, and yet they decide as the exact values would (`domains_exact`): promotion keeps every
operand on its side of -1, 0 and 1 and leaves an exponent whole. What they report is the operand as it
was given.
-/

namespace Reckoner

open Binary64 (isIntegral)

/-! ## Constants -/

namespace Binary64

theorem isFinite_zero : zero.isFinite = true := isFinite_ofWord (by decide)

theorem isFinite_one : one.isFinite = true := isFinite_ofWord (by decide)

theorem neg_one : -one = ofWord true 0x3FF0000000000000 := by decide +kernel

theorem isFinite_neg_one : (-one).isFinite = true := by
  rw [neg_one]
  exact isFinite_ofWord (by decide)

theorem toRat_zero : toRat zero = 0 := toRat_ofWord_zero false

theorem value_one : value 0x3FF0000000000000 = 1 := by
  have hvalue := nearest_one_of_lt (k := 1) (by decide)
  rw [Nat.cast_one] at hvalue
  exact hvalue

theorem toRat_one : toRat one = 1 := by
  rw [one, toRat_ofWord (by decide), value_one]
  rfl

theorem toRat_neg_one : toRat (-one) = -1 := by
  rw [neg_one, toRat_ofWord (by decide), value_one]
  rfl

end Binary64

/-! ## Checks -/

section Checks

variable {x : Float} (hx : x.isFinite = true)

include hx

theorem Binary64.beq_zero_iff : (x == zero) = true ↔ toRat x = 0 := by
  rw [beq_iff hx isFinite_zero, toRat_zero]

theorem Binary64.lt_zero_iff : x < zero ↔ toRat x < 0 := by
  rw [lt_iff hx isFinite_zero, toRat_zero]

theorem MathFunction.inDomain_sqrt_iff : sqrt.inDomain x = true ↔ ¬Binary64.toRat x < 0 := by
  rw [inDomain, decide_eq_true_iff, Binary64.le_iff Binary64.isFinite_zero hx, Binary64.toRat_zero,
    not_lt]

theorem MathFunction.inDomain_unit_iff {f : MathFunction} (hf : f = asin ∨ f = acos) :
    f.inDomain x = true ↔ -1 ≤ Binary64.toRat x ∧ Binary64.toRat x ≤ 1 := by
  have hcheck : f.inDomain x =
      (decide (-Binary64.one ≤ x) && decide (x ≤ Binary64.one)) := by
    rcases hf with rfl | rfl <;> rfl
  rw [hcheck, Bool.and_eq_true, decide_eq_true_iff, decide_eq_true_iff,
    Binary64.le_iff Binary64.isFinite_neg_one hx, Binary64.le_iff hx Binary64.isFinite_one,
    Binary64.toRat_one, Binary64.toRat_neg_one]

end Checks

/-! ## What is reported -/

namespace Number

theorem apply_div_eq (x y : Number) : apply .div x y =
    if y.toFloat == Binary64.zero then .error .divisionByZero
    else checkedFloat "/" (x.toFloat / y.toFloat) := by
  change (Operator.onFloats .div x.toFloat y.toFloat >>= checkedFloat "/") = _
  rw [Operator.onFloats]
  split <;> rfl

theorem apply_div_eq_divisionByZero_iff {x y : Number} :
    apply .div x y = .error .divisionByZero ↔ (y.toFloat == Binary64.zero) = true := by
  rw [apply_div_eq]
  split
  · next hzero => exact ⟨fun _ => hzero, fun _ => rfl⟩
  · next hzero => exact ⟨fun h => (nomatch checkedFloat_error h), fun h => absurd h hzero⟩

/-- A power of doubles is refused in two cases, and the error quotes the base as it was given. -/
theorem floatPow_eq_domain_iff {base a : Number} {x y : Float} {g : String} :
    floatPow base x y = .error (.domain g a) ↔
      (x == Binary64.zero ∧ y < Binary64.zero ∨ x < Binary64.zero ∧ isIntegral y = false) ∧
        g = "pow" ∧ a = base := by
  have hreport : (.error (.domain "pow" base) : Except CalcError Number) = .error (.domain g a) ↔
      g = "pow" ∧ a = base := by
    constructor
    · intro h
      cases h
      exact ⟨rfl, rfl⟩
    · rintro ⟨rfl, rfl⟩
      rfl
  unfold floatPow
  split
  · next hzero => exact hreport.trans (and_iff_right (.inl hzero)).symm
  · next hzero =>
    split
    · next hroot => exact hreport.trans (and_iff_right (.inr hroot)).symm
    · next hroot =>
      have hnot := not_or_intro hzero hroot
      exact ⟨fun h => (nomatch checkedFloat_error h), fun h => absurd h.1 hnot⟩

theorem pow_nat_ne_domain (b : Int) (e : Nat) (g : String) (a : Number) :
    pow (int b) (int e) ≠ .error (.domain g a) := by
  rw [pow_ints b (Int.natCast_nonneg e)]
  exact fun h => nomatch checkedInt_error h

end Number

namespace MathFunction

theorem apply_one_eq {f : MathFunction} (hf : f ≠ .pow) (x : Number) : f.apply [x] =
    if f.inDomain x.toFloat then Number.checkedFloat f.name (f.onFloat x.toFloat)
    else .error (.domain f.name x) := by
  cases f with
  | pow => exact absurd rfl hf
  | _ => rfl

theorem apply_one_eq_domain_iff {f : MathFunction} (hf : f ≠ .pow) {x a : Number} {g : String} :
    f.apply [x] = .error (.domain g a) ↔ ¬f.inDomain x.toFloat = true ∧ g = f.name ∧ a = x := by
  rw [apply_one_eq hf]
  split
  · next hdomain =>
    exact ⟨fun h => (nomatch Number.checkedFloat_error h), fun h => absurd hdomain h.1⟩
  · next hdomain =>
    constructor
    · intro h
      cases h
      exact ⟨hdomain, rfl, rfl⟩
    · rintro ⟨-, rfl, rfl⟩
      rfl

/-- The error names the function and its first argument, whatever function it is. -/
theorem eq_of_apply_eq_domain {f : MathFunction} {xs : List Number} {g : String} {a : Number}
    (h : f.apply xs = .error (.domain g a)) : g = f.name ∧ xs.head? = some a := by
  by_cases hf : f = .pow
  · subst hf
    unfold apply at h
    split at h
    · next base exponent _ =>
      unfold Number.pow at h
      split at h
      · next b e => exact absurd h (Number.pow_nat_ne_domain b e g a)
      · obtain ⟨-, rfl, rfl⟩ := Number.floatPow_eq_domain_iff.mp h
        exact ⟨rfl, rfl⟩
    · cases h
    · next hpow => exact absurd rfl hpow
    · cases h
  · rcases xs with _ | ⟨x, _ | ⟨y, ys⟩⟩
    · cases f <;> cases h
    · obtain ⟨-, rfl, rfl⟩ := (apply_one_eq_domain_iff hf).mp h
      exact ⟨rfl, rfl⟩
    · cases f <;> first | exact absurd rfl hf | cases h

end MathFunction

/-! ## Exact domains -/

namespace Number

/-- A power has a domain error exactly for a zero base with a negative exponent and for a negative base
with an exponent that is not whole. -/
theorem pow_eq_domain_iff {x y a : Number} (hx : x.Valid) (hy : y.Valid) {g : String} :
    pow x y = .error (.domain g a) ↔
      (x.toRat = 0 ∧ y.toRat < 0 ∨ x.toRat < 0 ∧ ¬∃ n : Int, y.toRat = n) ∧ g = "pow" ∧ a = x := by
  have hxfinite := isFinite_toFloat hx
  have hyfinite := isFinite_toFloat hy
  have hfloats : floatPow x x.toFloat y.toFloat = .error (.domain g a) ↔
      (x.toRat = 0 ∧ y.toRat < 0 ∨ x.toRat < 0 ∧ ¬∃ n : Int, y.toRat = n) ∧ g = "pow" ∧ a = x := by
    rw [floatPow_eq_domain_iff, Binary64.beq_zero_iff hxfinite, Binary64.lt_zero_iff hyfinite,
      Binary64.lt_zero_iff hxfinite, ← Bool.not_eq_true, Binary64.isIntegral_iff hyfinite,
      (toRat_toFloat hx).zero, (toRat_toFloat hx).neg, (toRat_toFloat hy).neg,
      (toRat_toFloat hy).whole]
  unfold pow
  split
  · next b e =>
    refine ⟨fun h => absurd h (pow_nat_ne_domain b e g a), fun ⟨h, _⟩ => ?_⟩
    rcases h with ⟨-, hneg⟩ | ⟨-, hwhole⟩
    · have hnonneg : (0 : ℚ) ≤ (e : Int) := by exact_mod_cast Nat.zero_le e
      exact absurd hneg (not_lt_of_ge hnonneg)
    · exact absurd ⟨_, rfl⟩ hwhole
  · exact hfloats

/-- **Checks of promoted operands decide as the exact values would**, and an error of a domain names the
function and the operand as it was given. -/
theorem domains_exact {x y : Number} (hx : x.Valid) (hy : y.Valid) :
    (applySymbol "/" x y = .error .divisionByZero ↔ y.toRat = 0) ∧
    (∀ g a, applyNamed "sqrt" [x] = .error (.domain g a) ↔ x.toRat < 0 ∧ g = "sqrt" ∧ a = x) ∧
    (∀ f, f = MathFunction.asin ∨ f = MathFunction.acos → ∀ g a,
      applyNamed f.name [x] = .error (.domain g a) ↔
        ¬(-1 ≤ x.toRat ∧ x.toRat ≤ 1) ∧ g = f.name ∧ a = x) ∧
    (∀ g a, applyNamed "pow" [x, y] = .error (.domain g a) ↔
      (x.toRat = 0 ∧ y.toRat < 0 ∨ x.toRat < 0 ∧ ¬∃ n : Int, y.toRat = n) ∧ g = "pow" ∧ a = x) ∧
    (∀ (b : Int) (e : Nat) g a, applyNamed "pow" [int b, int e] ≠ .error (.domain g a)) ∧
    ∀ (f : MathFunction) xs g a, applyNamed f.name xs = .error (.domain g a) →
      g = f.name ∧ xs.head? = some a := by
  have hxfinite := isFinite_toFloat hx
  have hpow (args : List Number) : applyNamed "pow" args = MathFunction.pow.apply args :=
    applyNamed_name .pow args
  have hsqrt : applyNamed "sqrt" [x] = MathFunction.sqrt.apply [x] := applyNamed_name .sqrt [x]
  have hdiv : applySymbol "/" x y = apply .div x y := applySymbol_symbol .div x y
  refine ⟨?_, fun g a => ?_, fun f hf g a => ?_, fun g a => ?_, fun b e g a => ?_, fun f xs g a h => ?_⟩
  · rw [hdiv, apply_div_eq_divisionByZero_iff, Binary64.beq_zero_iff (isFinite_toFloat hy),
      (toRat_toFloat hy).zero]
  · rw [hsqrt, MathFunction.apply_one_eq_domain_iff (by decide), MathFunction.inDomain_sqrt_iff hxfinite,
      not_not, (toRat_toFloat hx).neg]
    rfl
  · have hne : f ≠ .pow := by rcases hf with rfl | rfl <;> decide
    rw [applyNamed_name, MathFunction.apply_one_eq_domain_iff hne,
      MathFunction.inDomain_unit_iff hxfinite hf, (toRat_toFloat hx).unit]
  · rw [hpow]
    exact pow_eq_domain_iff hx hy
  · rw [hpow]
    exact pow_nat_ne_domain b e g a
  · rw [applyNamed_name] at h
    exact MathFunction.eq_of_apply_eq_domain h

/-- Dividing by negative zero, and a power of zero with the least exponent, reported as an integer. -/
theorem domains_exact_zeros :
    applySymbol "/" (int 1) (float (Binary64.ofWord true 0)) = .error .divisionByZero ∧
      applyNamed "pow" [int 0, int intMin] = .error (.domain "pow" (int 0)) := by
  have hnegative : (float (Binary64.ofWord true 0)).Valid :=
    @Binary64.isFinite_ofWord true 0 (by decide)
  have hzero : (float (Binary64.ofWord true 0)).toRat = 0 := Binary64.toRat_ofWord_zero true
  have hone : (int 1).Valid := by decide
  have hbase : (int 0).Valid := by decide
  have hexponent : (int intMin).Valid := by decide
  have hneg : (int intMin).toRat < 0 := Int.cast_lt_zero.mpr (by decide)
  constructor
  · exact (domains_exact hone hnegative).1.mpr hzero
  · exact ((domains_exact hbase hexponent).2.2.2.1 _ _).mpr ⟨.inl ⟨Int.cast_zero, hneg⟩, rfl, rfl⟩

end Number

end Reckoner
