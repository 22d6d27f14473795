import Reckoner.Proofs.ExactIntegers

/-!
# Bounded powers

A power of integers is the exact one if that fits and an overflow if it does not, for all bases and all
exponents that are not negative; yet no large power is computed to find out. The calculation is made
for any operation that computes powers, in any monad (`intPowBy`): with the plain operation it is the
power of integers, and with one that notes what it is asked for it tells which powers are computed on
the way.
-/

namespace Reckoner

namespace Number

/-- Computes a power and notes its base and its exponent. -/
def notedPower (base : Int) (exponent : Nat) : StateM (List (Int × Nat)) Int := do
  modify (· ++ [(base, exponent)])
  return exactPow base exponent

/-- The power of an integer, and all the powers that are computed on the way. -/
def intPowNoted (base : Int) (exponent : Nat) : Except CalcError Number × List (Int × Nat) :=
  (intPowBy notedPower base exponent).run []

theorem intPowBy_id (b : Int) (e : Nat) : intPowBy (m := Id) Int.pow b e = intPow b e := by
  have hpower : exactPow = Int.pow := funext fun b => funext (exactPow_eq b)
  rw [intPow, hpower]

/-- To note the powers makes no difference to the result. -/
theorem intPowNoted_fst (b : Int) (e : Nat) : (intPowNoted b e).1 = intPow b e := by
  unfold intPowNoted intPow intPowBy
  split
  · rfl
  · split <;> rfl

/-- At most one power is computed: the one that was asked for, if it is small enough. -/
theorem eq_of_mem_intPowNoted {b : Int} {e : Nat} {q : Int × Nat} (h : q ∈ (intPowNoted b e).2) :
    q = (b, e) ∧ (b.natAbs ≤ 1 ∨ e < powBound) := by
  unfold intPowNoted intPowBy at h
  split at h
  · next hsmall =>
    refine ⟨List.mem_singleton.mp h, hsmall.imp_right fun he => ?_⟩
    exact Nat.lt_of_le_of_lt he (by decide)
  · split at h
    · cases h
    · next hbound => exact ⟨List.mem_singleton.mp h, .inr (Nat.lt_of_not_le hbound)⟩

/-- **The bounded power is the exact one.** -/
theorem pow_bounded (b : Int) (e : Nat) :
    (Fits (Int.pow b e) → pow (int b) (int e) = .ok (int (Int.pow b e))) ∧
    (¬Fits (Int.pow b e) → pow (int b) (int e) = .error (.overflow "pow")) ∧
    intPowBy (m := Id) Int.pow b e = pow (int b) (int e) ∧
    (intPowNoted b e).1 = pow (int b) (int e) ∧
    (2 ≤ b.natAbs → ∀ q ∈ (intPowNoted b e).2, q.2 ≤ 63) := by
  have hexact : pow (int b) (int e) = checkedInt "pow" (Int.pow b e) :=
    pow_ints b (Int.natCast_nonneg e)
  refine ⟨fun h => ?_, fun h => ?_, intPowBy_id b e, intPowNoted_fst b e, fun hb q hq => ?_⟩
  · rw [hexact, checkedInt, if_pos h]
  · rw [hexact, checkedInt, if_neg h]
  · obtain ⟨rfl, hsmall⟩ := eq_of_mem_intPowNoted hq
    have hbound : e < powBound := hsmall.resolve_left (by omega)
    exact Nat.le_of_lt_succ hbound

/-- The least integer is a power though the next greater one in absolute value is not, and the greatest
exponent asks for no power at all. -/
theorem pow_bounded_least :
    pow (int (-2)) (int 63) = .ok (int intMin) ∧
    pow (int 2) (int 63) = .error (.overflow "pow") ∧
    ∀ q ∈ (intPowNoted 2 0x7FFFFFFFFFFFFFFF).2, q.2 ≤ 63 := by
  have hfits : Fits (Int.pow (-2) 63) := by decide
  have hunfit : ¬Fits (Int.pow 2 63) := by decide
  refine ⟨(pow_bounded (-2) 63).1 hfits, (pow_bounded 2 63).2.1 hunfit, ?_⟩
  exact (pow_bounded 2 0x7FFFFFFFFFFFFFFF).2.2.2.2 (by decide)

end Number

end Reckoner
