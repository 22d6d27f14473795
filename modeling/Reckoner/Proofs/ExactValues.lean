import Reckoner.Proofs.NearestDouble

/-!
# Exact values

Doubles compare as their exact values do (`Binary64.compare_eq`), and whether a double is whole can be
read off its value. Promoting an integer changes its value only above 53 bits, and there it makes an
even integer of it, so it neither reaches nor crosses -1, 0 or 1 (`Number.toRat_toFloat`).
-/

namespace Reckoner

namespace Binary64

/-! ## Order -/

/-- Of two words the greater one has the greater exponent, or the same one and more steps. -/
theorem parts_lt {w u : Nat} (h : w < u) :
    exponent w < exponent u ∨ exponent w = exponent u ∧ significand w < significand u := by
  have hw := word_eq w
  have hu := word_eq u
  have hleast := Decimal.exponent_ge w
  have hleast' := Decimal.exponent_ge u
  have hsteps := significand_lt w
  have hsteps' := significand_lt u
  have hfull := exponent_or_significand w
  have hfull' := exponent_or_significand u
  unfold hiddenBit at *
  omega

theorem compare_parts (w u : Nat) :
    (compare (exponent w) (exponent u)).then (compare (significand w) (significand u)) =
      compare (value w) (value u) := by
  rcases Nat.lt_trichotomy w u with h | rfl | h
  · rw [compare_lt_iff_lt.mpr (value_strictMono h)]
    rcases parts_lt h with he | ⟨he, hm⟩
    · rw [compare_lt_iff_lt.mpr he]
      rfl
    · rw [compare_eq_iff_eq.mpr he, compare_lt_iff_lt.mpr hm]
      rfl
  · rw [compare_eq_iff_eq.mpr rfl, compare_eq_iff_eq.mpr rfl, compare_eq_iff_eq.mpr rfl]
    rfl
  · rw [compare_gt_iff_gt.mpr (value_strictMono h)]
    rcases parts_lt h with he | ⟨he, hm⟩
    · rw [compare_gt_iff_gt.mpr he]
      rfl
    · rw [compare_eq_iff_eq.mpr he.symm, compare_gt_iff_gt.mpr hm]
      rfl

theorem compare_neg (a b : ℚ) : compare (-a) (-b) = (compare a b).swap := by
  rcases lt_trichotomy a b with h | rfl | h
  · rw [compare_lt_iff_lt.mpr h, compare_gt_iff_gt.mpr (neg_lt_neg h)]
    rfl
  · rw [compare_eq_iff_eq.mpr rfl, compare_eq_iff_eq.mpr rfl]
    rfl
  · rw [compare_gt_iff_gt.mpr h, compare_lt_iff_lt.mpr (neg_lt_neg h)]
    rfl

theorem compare_ofWord {w u : Nat} (hw : w < infinityWord) (hu : u < infinityWord)
    (negative negative' : Bool) :
    (ofWord negative w).toModel.unpack.compare (ofWord negative' u).toModel.unpack =
      some (compare (toRat (ofWord negative w)) (toRat (ofWord negative' u))) := by
  rw [unpack_ofWord hw, unpack_ofWord hu, toRat_ofWord hw, toRat_ofWord hu]
  rcases Nat.eq_zero_or_pos w with rfl | hwpos
  · rw [dif_neg (Nat.lt_irrefl 0), value_zero, neg_zero, ite_self]
    rcases Nat.eq_zero_or_pos u with rfl | hupos
    · rw [dif_neg (Nat.lt_irrefl 0), value_zero, neg_zero, ite_self, compare_eq_iff_eq.mpr rfl]
      rfl
    · rw [dif_pos hupos]
      cases negative' with
      | false =>
        rw [if_neg nofun, compare_lt_iff_lt.mpr (value_pos hupos)]
        rfl
      | true =>
        rw [if_pos rfl, compare_gt_iff_gt.mpr (neg_lt_zero.mpr (value_pos hupos))]
        rfl
  · rw [dif_pos hwpos]
    rcases Nat.eq_zero_or_pos u with rfl | hupos
    · rw [dif_neg (Nat.lt_irrefl 0), value_zero, neg_zero, ite_self]
      cases negative with
      | false =>
        rw [if_neg nofun, compare_gt_iff_gt.mpr (value_pos hwpos)]
        rfl
      | true =>
        rw [if_pos rfl, compare_lt_iff_lt.mpr (neg_lt_zero.mpr (value_pos hwpos))]
        rfl
    · rw [dif_pos hupos]
      have hwv := value_pos hwpos
      have huv := value_pos hupos
      cases negative with
      | false =>
        cases negative' with
        | false => exact congrArg some (compare_parts w u)
        | true =>
          rw [if_neg nofun, if_pos rfl, compare_gt_iff_gt.mpr (by linarith)]
          rfl
      | true =>
        cases negative' with
        | false =>
          rw [if_pos rfl, if_neg nofun, compare_lt_iff_lt.mpr (by linarith)]
          rfl
        | true =>
          rw [if_pos rfl, if_pos rfl, compare_neg, ← compare_parts]
          rfl

section Finite

variable {x y : Float} (hx : x.isFinite = true) (hy : y.isFinite = true)

include hx hy

theorem compare_eq :
    x.toModel.unpack.compare y.toModel.unpack = some (compare (toRat x) (toRat y)) := by
  rw [← ofWord_parts hx, ← ofWord_parts hy]
  exact compare_ofWord (magnitude_lt hx) (magnitude_lt hy) _ _

theorem lt_iff : x < y ↔ toRat x < toRat y := by
  have hcompare : x < y ↔ x.toModel.unpack.compare y.toModel.unpack = some .lt :=
    ⟨fun h => beq_iff_eq.mp (of_decide_eq_true h), fun h => decide_eq_true (beq_iff_eq.mpr h)⟩
  rw [hcompare, compare_eq hx hy, Option.some.injEq, compare_lt_iff_lt]

theorem le_iff : x ≤ y ↔ toRat x ≤ toRat y := by
  have hcompare : x ≤ y ↔
      (x.toModel.unpack.compare y.toModel.unpack).any Ordering.isLE = true :=
    ⟨fun h => of_decide_eq_true h, fun h => decide_eq_true h⟩
  rw [hcompare, compare_eq hx hy, Option.any_some, ← compare_le_iff_le]
  cases compare (toRat x) (toRat y) <;> decide

theorem beq_iff : (x == y) = true ↔ toRat x = toRat y := by
  change (x.toModel.unpack.compare y.toModel.unpack == some .eq) = true ↔ _
  rw [beq_iff_eq, compare_eq hx hy, Option.some.injEq, compare_eq_iff_eq]

end Finite

/-! ## Whole doubles -/

theorem toRat_eq {x : Float} (hx : x.isFinite = true) :
    toRat x = if isNegative x then -value (magnitude x) else value (magnitude x) := by
  rw [← toRat_ofWord (magnitude_lt hx), ofWord_parts hx]

theorem abs_toRat {x : Float} (hx : x.isFinite = true) : |toRat x| = value (magnitude x) := by
  have hnonneg := abs_of_nonneg (value_nonneg (magnitude x))
  rw [toRat_eq hx]
  split
  · rw [abs_neg, hnonneg]
  · exact hnonneg

theorem isIntegral_iff {x : Float} (hx : x.isFinite = true) :
    isIntegral x = true ↔ ∃ n : Int, toRat x = n := by
  have hlt := magnitude_lt hx
  have hden : (denominator (magnitude x) : ℚ) ≠ 0 :=
    Nat.cast_ne_zero.mpr (denominator_ne_zero (magnitude x))
  have hdvd : isIntegral x = true ↔ ∃ n : Int, value (magnitude x) = n := by
    have hmod : isIntegral x = true ↔ denominator (magnitude x) ∣ numerator (magnitude x) := by
      rw [Nat.dvd_iff_mod_eq_zero]
      simp [isIntegral, hlt]
    rw [hmod]
    constructor
    · rintro ⟨k, hk⟩
      refine ⟨k, ?_⟩
      rw [value, hk]
      push_cast
      exact mul_div_cancel_left₀ _ hden
    · rintro ⟨n, hn⟩
      rw [value, div_eq_iff hden] at hn
      refine Int.natCast_dvd_natCast.mp ⟨n, ?_⟩
      rw [mul_comm]
      exact_mod_cast hn
  rw [hdvd, toRat_eq hx]
  split
  · constructor
    · rintro ⟨n, hn⟩
      exact ⟨-n, by rw [hn]; push_cast; rfl⟩
    · rintro ⟨n, hn⟩
      exact ⟨-n, by push_cast; rw [← hn, neg_neg]⟩
  · exact Iff.rfl

/-! ## Promoted integers -/

/-- A number is not rounded past the value of a word. -/
theorem IsNearest.le_value {w u : Nat} {q : ℚ} (h : IsNearest w q) (hu : u ≤ infinityWord)
    (hle : value u ≤ q) : value u ≤ value w := by
  by_contra hlt
  have hnear := h.near u hu
  rw [abs_of_nonpos (by linarith), abs_of_nonpos (by linarith)] at hnear
  linarith

theorem IsNearest.value_le {w u : Nat} {q : ℚ} (h : IsNearest w q) (hu : u ≤ infinityWord)
    (hle : q ≤ value u) : value w ≤ value u := by
  by_contra hlt
  have hnear := h.near u hu
  rw [abs_of_nonneg (by linarith), abs_of_nonneg (by linarith)] at hnear
  linarith

theorem nearest_one_of_lt {k : Nat} (hk : k < 2 * hiddenBit) : value (nearest k 1) = k := by
  rcases Nat.eq_zero_or_pos k with rfl | hpos
  · exact value_zero
  · -- The places after the point that the number leaves to a significand.
    obtain ⟨places, hplaces⟩ : ∃ places, k.log2 + places = 52 := by
      have hlog : k.log2 < 53 := (Nat.log2_lt hpos.ne').mpr hk
      exact ⟨52 - k.log2, by omega⟩
    have hlow : hiddenBit ≤ k * 2 ^ places :=
      calc hiddenBit = 2 ^ (k.log2 + places) := by rw [hplaces]; rfl
        _ = 2 ^ k.log2 * 2 ^ places := Nat.pow_add ..
        _ ≤ k * 2 ^ places := Nat.mul_le_mul_right _ (Nat.log2_self_le hpos.ne')
    have hhigh : k * 2 ^ places ≤ 2 * hiddenBit :=
      calc k * 2 ^ places ≤ 2 ^ (k.log2 + 1) * 2 ^ places :=
            Nat.mul_le_mul_right _ Nat.lt_log2_self.le
        _ = 2 ^ (k.log2 + 1 + places) := (Nat.pow_add ..).symm
        _ = 2 * hiddenBit := by rw [Nat.add_right_comm, hplaces]; rfl
    have hvalue := @value_word (-places) (k * 2 ^ places) (by omega) hhigh (.inr hlow)
    have hexact : value ((-(places : Int) + 1074).toNat * hiddenBit + k * 2 ^ places) = k := by
      rw [hvalue, zpow_neg, zpow_natCast]
      push_cast
      rw [mul_assoc, mul_inv_cancel₀ (by positivity), mul_one]
    have hword : (-(places : Int) + 1074).toNat * hiddenBit + k * 2 ^ places < infinityWord := by
      unfold hiddenBit infinityWord at *
      omega
    rw [nearest_of_eq_value hword one_ne_zero (by rw [hexact, Nat.cast_one, div_one]), hexact]

/-- Above 53 bits the doubles are even. -/
theorem nearest_one_of_le {k : Nat} (hk : 2 * hiddenBit ≤ k) :
    ∃ m : Nat, hiddenBit ≤ m ∧ value (nearest k 1) = 2 * m := by
  have hfirst : value (1076 * hiddenBit) = 2 * hiddenBit := by
    have hvalue := @value_word 1 hiddenBit (by decide) (by decide) (.inr (Nat.le_refl _))
    rw [zpow_one, mul_comm (hiddenBit : ℚ)] at hvalue
    exact hvalue
  have hle : value (1076 * hiddenBit) ≤ value (nearest k 1) := by
    refine (isNearest_nearest k one_ne_zero).le_value (by decide) ?_
    rw [hfirst, Nat.cast_one, div_one]
    exact_mod_cast hk
  have hword := value_strictMono.le_iff_le.mp hle
  obtain ⟨j, hj⟩ : ∃ j : Nat, exponent (nearest k 1) = j + 1 := by
    refine ⟨(exponent (nearest k 1) - 1).toNat, ?_⟩
    unfold exponent hiddenBit at *
    split <;> omega
  have hvalue : value (nearest k 1) = 2 * (significand (nearest k 1) * 2 ^ j : Nat) := by
    rw [value_eq, hj, zpow_add_one₀ (by decide), zpow_natCast]
    push_cast
    ring
  refine ⟨_, ?_, hvalue⟩
  rw [hfirst, hvalue] at hle
  have hcast : 2 * hiddenBit ≤ 2 * (significand (nearest k 1) * 2 ^ j) := by exact_mod_cast hle
  omega

theorem toRat_ofInt {n : Int} (hn : Number.Fits n) : toRat (ofInt n) =
    if n < 0 then -value (nearest n.natAbs 1) else value (nearest n.natAbs 1) := by
  have hlt : nearest n.natAbs 1 < infinityWord := by
    refine nearest_one_lt ?_
    unfold Number.Fits Number.intMin Number.intMax at hn
    unfold signBit
    omega
  rw [ofInt, ofFraction, toRat_ofWord hlt]
  simp only [decide_eq_true_eq]

/-- An integer of 53 bits is promoted to itself, and a greater one to an even integer with the same
sign. -/
theorem toRat_ofInt_cases {n : Int} (hn : Number.Fits n) :
    n.natAbs < 2 * hiddenBit ∧ toRat (ofInt n) = n ∨
      2 * hiddenBit ≤ n.natAbs ∧ ∃ m : Int, toRat (ofInt n) = (2 * m : Int) ∧
        hiddenBit ≤ m.natAbs ∧ (m < 0 ↔ n < 0) := by
  rw [toRat_ofInt hn]
  rcases Nat.lt_or_ge n.natAbs (2 * hiddenBit) with hlt | hge
  · refine .inl ⟨hlt, ?_⟩
    rw [nearest_one_of_lt hlt]
    split
    · next hneg =>
      have habs : -(n.natAbs : Int) = n := by omega
      rw [← Int.cast_natCast, ← Int.cast_neg, habs]
    · next hneg =>
      have habs : (n.natAbs : Int) = n := by omega
      rw [← Int.cast_natCast, habs]
  · obtain ⟨m, hm, hvalue⟩ := nearest_one_of_le hge
    refine .inr ⟨hge, ?_⟩
    rw [hvalue]
    have hpos : 0 < m := Nat.lt_of_lt_of_le (by decide) hm
    split
    · next hneg =>
      refine ⟨-m, by push_cast; ring, by omega, by omega⟩
    · next hneg =>
      exact ⟨m, by push_cast; ring, by omega, by omega⟩

end Binary64

/-! ## Numbers -/

/-- The two stand alike to -1, 0 and 1, and both are whole or neither is. -/
structure SameSide (p q : ℚ) : Prop where
  neg : p < 0 ↔ q < 0
  zero : p = 0 ↔ q = 0
  unit : -1 ≤ p ∧ p ≤ 1 ↔ -1 ≤ q ∧ q ≤ 1
  whole : (∃ n : Int, p = n) ↔ ∃ n : Int, q = n

theorem SameSide.refl (p : ℚ) : SameSide p p := ⟨Iff.rfl, Iff.rfl, Iff.rfl, Iff.rfl⟩

namespace Number

/-- The exact value of a number. -/
def toRat : Number → ℚ
  | int n => n
  | float x => Binary64.toRat x

/-- **Promotion keeps to the side of the exact value.** -/
theorem toRat_toFloat {x : Number} (hx : x.Valid) : SameSide (Binary64.toRat x.toFloat) x.toRat := by
  cases x with
  | float x => exact .refl _
  | int n =>
    have hone : 1 < Binary64.hiddenBit := by decide
    rcases Binary64.toRat_ofInt_cases hx with ⟨-, hexact⟩ | ⟨hlarge, m, heven, hm, hsign⟩
    · change SameSide (Binary64.toRat (Binary64.ofInt n)) n
      rw [hexact]
      exact .refl _
    · have hside : SameSide ((2 * m : Int) : ℚ) (n : ℚ) := by
        constructor
        · rw [Int.cast_lt_zero, Int.cast_lt_zero]
          omega
        · rw [Int.cast_eq_zero, Int.cast_eq_zero]
          omega
        · have hunit (k : Int) : -1 ≤ (k : ℚ) ∧ (k : ℚ) ≤ 1 ↔ -1 ≤ k ∧ k ≤ 1 := by
            exact_mod_cast Iff.rfl
          rw [hunit, hunit]
          omega
        · exact ⟨fun _ => ⟨n, rfl⟩, fun _ => ⟨2 * m, rfl⟩⟩
      change SameSide (Binary64.toRat (Binary64.ofInt n)) n
      rw [heven]
      exact hside

end Number

end Reckoner
