import Reckoner.Proofs.Doubles
import Reckoner.Proofs.Lexed

/-!
# Spellings of numbers

Every integer and every finite double without a sign is read from some row of digits: an integer from
its own digits, a double from those of its exact value, which is a decimal fraction because it is a
binary one.
-/

namespace Reckoner

namespace Numeral

/-- Every number has a row of digits with the point wherever it is wanted. -/
theorem exists_digits (n places : Nat) : ∃ whole fraction : List Char, IsDigits whole ∧
    IsDigits fraction ∧ fraction.length = places + 1 ∧ natValue (whole ++ fraction) = n := by
  obtain ⟨digits, hdigits⟩ :
      ∃ digits, digits = List.replicate (places + 1) '0' ++ Nat.toDigits 10 n := ⟨_, rfl⟩
  have hall : IsDigits digits := by
    rw [hdigits]
    exact (isDigits_toDigits n).zeros_append _
  have hpos : 0 < (Nat.toDigits 10 n).length := Nat.length_toDigits_pos
  have hlength : digits.length = places + 1 + (Nat.toDigits 10 n).length := by
    rw [hdigits, List.length_append, List.length_replicate]
  have hplaces : (digits.drop (Nat.toDigits 10 n).length).length = places + 1 := by
    rw [List.length_drop]
    omega
  refine ⟨digits.take (Nat.toDigits 10 n).length, digits.drop (Nat.toDigits 10 n).length,
    hall.of_subset ?_ (List.take_subset _ _),
    hall.of_subset (List.ne_nil_of_length_eq_add_one hplaces) (List.drop_subset _ _), hplaces, ?_⟩
  · rw [← List.length_pos_iff, List.length_take]
    omega
  · rw [List.take_append_drop, hdigits, natValue, Nat.ofDigitChars_append,
      Nat.ofDigitChars_replicate_zero, Nat.mul_zero, Nat.ofDigitChars_ten_toDigits]

end Numeral

/-- The power of ten with a place more than the word has binary ones. -/
theorem powerOfTen_places (w : Nat) : powerOfTen ((-Binary64.exponent w).toNat + 1) =
    Binary64.denominator w * (2 * 5 ^ ((-Binary64.exponent w).toNat + 1)) := by
  change (2 * 5) ^ ((-Binary64.exponent w).toNat + 1) = _
  rw [Binary64.denominator, Nat.shiftLeft_eq, Nat.one_mul, Nat.mul_pow, ← Nat.mul_assoc,
    Nat.pow_succ 2]

namespace Number

/-- The number has no sign: an integer that is not negative, or a double whose sign bit is clear. -/
def Unsigned : Number → Prop
  | int n => 0 ≤ n
  | float x => Binary64.isNegative x = false

theorem ofLiteral_toDigits {n : Nat} (h : Fits n) :
    ofLiteral (Nat.toDigits 10 n) = .ok (int n) := by
  have hlength : (Nat.toDigits 10 n).length ≤ maxDigits := by
    have hmax := h.2
    unfold intMax at hmax
    apply Nat.le_trans ((Nat.length_toDigits_le_iff (k := 19) (by decide) (by decide)).mpr (by omega))
    decide
  have hshort : ¬Numeral.Overlong (Nat.toDigits 10 n) :=
    fun hlong => Nat.not_lt_of_le hlength hlong.2.1
  rw [ofLiteral_digits (Numeral.isDigits_toDigits n) hshort, Numeral.natValue, Nat.ofDigitChars_ten_toDigits]
  exact if_pos h.2

/-- A decimal fraction with more places than the double has binary ones is exact. -/
theorem exists_spelling_float {x : Float} (hfinite : x.isFinite = true)
    (hsign : Binary64.isNegative x = false) : ∃ chars, ofLiteral chars = .ok (float x) := by
  have hlt := Binary64.magnitude_lt hfinite
  have hword := Binary64.ofWord_magnitude hfinite hsign
  generalize Binary64.magnitude x = w at hlt hword
  have hfive : 2 * 5 ^ ((-Binary64.exponent w).toNat + 1) ≠ 0 :=
    Nat.mul_ne_zero (by decide) (Nat.ne_of_gt (Nat.pow_pos (by decide)))
  obtain ⟨whole, fraction, hwhole, hfraction, hlength, hvalue⟩ := Numeral.exists_digits
    (Binary64.numerator w * (2 * 5 ^ ((-Binary64.exponent w).toNat + 1)))
    (-Binary64.exponent w).toNat
  refine ⟨whole ++ '.' :: fraction, ?_⟩
  rw [ofLiteral_fraction hwhole hfraction, hvalue, hlength, powerOfTen_places, Binary64.ofFraction,
    Binary64.nearest_exact hlt hfive, hword]
  exact if_pos hfinite

theorem exists_spelling {v : Number} (hvalid : v.Valid) (hunsigned : v.Unsigned) :
    ∃ chars, ofLiteral chars = .ok v := by
  cases v with
  | int n =>
    obtain ⟨k, rfl⟩ := Int.eq_ofNat_of_zero_le hunsigned
    exact ⟨_, ofLiteral_toDigits hvalid⟩
  | float x => exact exists_spelling_float hvalid hunsigned

end Number

end Reckoner
