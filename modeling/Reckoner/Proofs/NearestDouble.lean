import Reckoner.Proofs.ShortestDecimal

/-!
# The nearest double

`Binary64.nearest` answers the word whose value is nearest to the quotient, and the even one of two
equally near words (`nearest_iff`); no finite double of either sign is nearer (`IsNearest.le_double`).
The words stand for ascending values, the steps of one last place after those of the next smaller one
(`value_strictMono`); the word of infinity counts with the value that would come next. Above the largest
double by less than half a step the nearest word is a double, and beyond that it is infinity.
-/

namespace Reckoner

namespace Binary64

open Float.Model (Format UnpackedFloat)
open Float.Model.UnpackedFloat

/-- Of the words of doubles and of infinity this has the value nearest to the number, and if another one
is equally near it is even. -/
structure IsNearest (w : Nat) (q : ℚ) : Prop where
  le : w ≤ infinityWord
  near : ∀ u ≤ infinityWord, |value w - q| ≤ |value u - q|
  even : ∀ u ≤ infinityWord, |value u - q| = |value w - q| → u ≠ w → w % 2 = 0

/-! ## The values of the words -/

theorem value_eq (w : Nat) : value w = significand w * 2 ^ exponent w := by
  have hpow := zpow_eq_div 2 (by decide) (exponent w)
  push_cast at hpow
  rw [hpow, value, numerator, denominator, Nat.shiftLeft_eq, Nat.shiftLeft_eq, Nat.one_mul]
  push_cast
  rw [mul_div_assoc]

theorem significand_lt (w : Nat) : significand w < 2 * hiddenBit := by
  unfold significand hiddenBit
  split <;> omega

theorem exponent_or_significand (w : Nat) : exponent w = -1074 ∨ hiddenBit ≤ significand w := by
  unfold significand exponent
  split
  · exact .inl rfl
  · exact .inr (Nat.le_add_right ..)

/-- The word of a number of steps of a last place. -/
theorem value_word {place : Int} {steps : Nat} (hplace : -1074 ≤ place)
    (hsteps : steps ≤ 2 * hiddenBit) (hnormal : place = -1074 ∨ hiddenBit ≤ steps) :
    value ((place + 1074).toNat * hiddenBit + steps) = steps * 2 ^ place := by
  rw [value_eq]
  rcases Nat.lt_or_eq_of_le hsteps with hlt | rfl
  · have hsignificand : significand ((place + 1074).toNat * hiddenBit + steps) = steps := by
      unfold significand hiddenBit at *
      split <;> omega
    have hexponent : exponent ((place + 1074).toNat * hiddenBit + steps) = place := by
      unfold exponent hiddenBit at *
      split <;> omega
    rw [hsignificand, hexponent]
  · -- So many steps are half as many of the next place.
    have hsignificand : significand ((place + 1074).toNat * hiddenBit + 2 * hiddenBit) = hiddenBit := by
      unfold significand hiddenBit at *
      split <;> omega
    have hexponent : exponent ((place + 1074).toNat * hiddenBit + 2 * hiddenBit) = place + 1 := by
      unfold exponent hiddenBit at *
      split <;> omega
    rw [hsignificand, hexponent, zpow_add_one₀ (by decide)]
    push_cast
    ring

theorem value_strictMono : StrictMono value := by
  refine strictMono_nat_of_lt_succ fun w => ?_
  have hnext := value_word (Decimal.exponent_ge w) (significand_lt w)
    ((exponent_or_significand w).imp_right Nat.le_succ_of_le)
  rw [Nat.succ_eq_add_one, ← Nat.add_assoc, word_eq] at hnext
  rw [hnext, value_eq]
  push_cast
  exact mul_lt_mul_of_pos_right (lt_add_one _) (zpow_pos (by decide) _)

theorem value_pos {w : Nat} (hw : 0 < w) : 0 < value w := by
  rw [← value_zero]
  exact value_strictMono hw

/-! ## The values of doubles -/

/-- The exact value of a finite double, from the parts of its encoding. -/
def toRat (x : Float) : ℚ :=
  match x.toModel.unpack with
  | .finite .negative m e _ => -(m * 2 ^ e)
  | .finite .positive m e _ => m * 2 ^ e
  | _ => 0

def signOf (negative : Bool) : Sign := if negative then .negative else .positive

section Words

variable {w : Nat} (hw : w < infinityWord) (negative : Bool)

include hw

theorem unpackSign_encoding :
    Sign.ofBitVec (@unpackSign Format.binary64 (encoding negative w).toBitVec) = signOf negative := by
  have hbit := toNat_unpackSign (encoding negative w)
  rw [toNat_encoding hw] at hbit
  unfold infinityWord at hw
  cases negative with
  | false =>
    have hzero : @unpackSign Format.binary64 (encoding false w).toBitVec = 0#1 :=
      BitVec.eq_of_toNat_eq (hbit.trans (Nat.div_eq_of_lt (Nat.lt_trans hw (by decide))))
    rw [hzero]
    rfl
  | true =>
    have hone : @unpackSign Format.binary64 (encoding true w).toBitVec = 1#1 := by
      refine BitVec.eq_of_toNat_eq (hbit.trans ?_)
      change (signBit + w) / signBit = 1
      unfold signBit
      omega
    rw [hone]
    rfl

theorem unpack_encoding_low (hlow : w < hiddenBit) :
    unpack Format.binary64 (encoding negative w).toBitVec = if h : 0 < w then
      .finite (signOf negative) w (-1074) h else .zero (signOf negative) := by
  obtain ⟨hexponent, hmantissa⟩ := @unpack_encoding_fields negative w hw
  rw [Nat.div_eq_of_lt hlow] at hexponent
  rw [Nat.mod_eq_of_lt hlow] at hmantissa
  have hzero : @unpackExponent Format.binary64 (encoding negative w).toBitVec = 0#11 :=
    BitVec.eq_of_toNat_eq hexponent
  have hbias : Format.binary64.exponentBias = 1023 := rfl
  unfold unpack
  dsimp only
  rw [if_neg (isFinite_unpack_iff.mp (isFinite_unpack_encoding hw)), unpackSign_encoding hw, hbias,
    if_pos hzero]
  by_cases hpos : 0 < w
  · have hne : @unpackMantissa Format.binary64 (encoding negative w).toBitVec ≠ 0#52 := by
      intro hm
      rw [hm] at hmantissa
      exact absurd hmantissa (Nat.ne_of_lt hpos)
    rw [dif_neg hne, dif_pos hpos, UnpackedFloat.finite.injEq]
    refine ⟨rfl, hmantissa, ?_⟩
    rw [hexponent]
    rfl
  · have hm : @unpackMantissa Format.binary64 (encoding negative w).toBitVec = 0#52 :=
      BitVec.eq_of_toNat_eq (hmantissa.trans (Nat.eq_zero_of_not_pos hpos))
    rw [dif_pos hm, dif_neg hpos]

theorem unpack_encoding_high (hhigh : hiddenBit ≤ w) (hpos : 0 < significand w) :
    unpack Format.binary64 (encoding negative w).toBitVec =
      .finite (signOf negative) (significand w) (exponent w) hpos := by
  obtain ⟨hexponent, hmantissa⟩ := @unpack_encoding_fields negative w hw
  have hzero : @unpackExponent Format.binary64 (encoding negative w).toBitVec ≠ 0#11 := by
    intro heq
    rw [heq] at hexponent
    exact absurd hexponent.symm (Nat.ne_of_gt (Nat.div_pos hhigh (by decide)))
  have hbias : Format.binary64.exponentBias = 1023 := rfl
  have hlt : (@unpackMantissa Format.binary64 (encoding negative w).toBitVec).toNat < 2 ^ 52 :=
    BitVec.isLt _
  unfold unpack
  dsimp only
  rw [if_neg (isFinite_unpack_iff.mp (isFinite_unpack_encoding hw)), unpackSign_encoding hw, hbias,
    if_neg hzero, UnpackedFloat.finite.injEq]
  refine ⟨rfl, ?_, ?_⟩
  · rw [significand, if_neg (Nat.not_lt_of_le hhigh), ← hmantissa, BitVec.toNat_append,
      ← Nat.shiftLeft_add_eq_or_of_lt hlt]
    rfl
  · rw [exponent, if_neg (Nat.not_lt_of_le hhigh), hexponent]
    rfl

theorem unpack_ofWord : (ofWord negative w).toModel.unpack = if h : 0 < w then
      .finite (signOf negative) (significand w) (exponent w) (significand_pos h)
    else .zero (signOf negative) := by
  have hunpack : (ofWord negative w).toModel.unpack =
      unpack Format.binary64 (encoding negative w).toBitVec := by
    change unpack Format.binary64 (Float.ofBits (encoding negative w)).toBits.toBitVec = _
    rw [toBits_ofBits (isFinite_unpack_encoding hw)]
  rw [hunpack]
  by_cases hlow : w < hiddenBit
  · rw [unpack_encoding_low hw negative hlow]
    simp only [significand, exponent, if_pos hlow]
  · have hpos : 0 < w := Nat.lt_of_lt_of_le (by decide) (Nat.le_of_not_lt hlow)
    rw [dif_pos hpos, unpack_encoding_high hw negative (Nat.le_of_not_lt hlow) (significand_pos hpos)]

/-- A word is the magnitude of doubles of its value. -/
theorem toRat_ofWord : toRat (ofWord negative w) = if negative then -value w else value w := by
  rw [toRat, unpack_ofWord hw, value_eq]
  by_cases hpos : 0 < w
  · rw [dif_pos hpos]
    cases negative <;> rfl
  · have hzero : significand w = 0 := by
      rw [Nat.eq_zero_of_not_pos hpos]
      rfl
    rw [dif_neg hpos, hzero, Nat.cast_zero, zero_mul, neg_zero, ite_self]

end Words

theorem toRat_ofWord_zero (negative : Bool) : toRat (ofWord negative 0) = 0 := by
  rw [toRat_ofWord (by decide), value_zero, neg_zero, ite_self]

/-! ## Rounding to an integer -/

/-- The number rounds to the integer, a half to the even one. -/
def RoundsTo (t : ℚ) (r : Nat) : Prop := |r - t| < 1 / 2 ∨ |r - t| = 1 / 2 ∧ r % 2 = 0

theorem RoundsTo.abs_le {t : ℚ} {r : Nat} (h : RoundsTo t r) : |r - t| ≤ 1 / 2 := by
  rcases h with h | ⟨h, -⟩
  · exact h.le
  · exact h.le

/-- No integer is nearer, and an equally near one leaves the even one. -/
theorem RoundsTo.near {t : ℚ} {r : Nat} (h : RoundsTo t r) (k : Nat) :
    |r - t| ≤ |k - t| ∧ (|k - t| = |r - t| → k ≠ r → r % 2 = 0) := by
  by_cases hk : k = r
  · subst hk
    exact ⟨le_refl _, fun _ hne => absurd rfl hne⟩
  · have hapart : (1 : ℚ) ≤ |(k : ℚ) - r| := by
      have hint : (1 : Int) ≤ |(k : Int) - r| := Int.one_le_abs (by omega)
      exact_mod_cast hint
    have htriangle : |(k : ℚ) - r| ≤ |k - t| + |r - t| := by
      rw [abs_sub_comm (r : ℚ) t]
      exact abs_sub_le _ _ _
    have hle := h.abs_le
    refine ⟨by linarith, fun heq _ => ?_⟩
    rcases h with hlt | ⟨-, heven⟩
    · linarith
    · exact heven

theorem roundsTo_roundHalfEven (num : Nat) {den : Nat} (hden : den ≠ 0) :
    RoundsTo (num / den) (roundHalfEven num den) := by
  have hpos : (0 : ℚ) < den := Nat.cast_pos.mpr (Nat.pos_of_ne_zero hden)
  have hquotient : (num : ℚ) / den = (num / den : Nat) + (num % den : Nat) / den := by
    have hnum : (num : ℚ) = den * (num / den : Nat) + (num % den : Nat) := by
      exact_mod_cast (Nat.div_add_mod num den).symm
    rw [eq_comm, hnum, add_div, mul_div_cancel_left₀ _ hpos.ne']
  rw [hquotient]
  have hrest : (0 : ℚ) ≤ (num % den : Nat) / den := by positivity
  unfold roundHalfEven
  dsimp only
  generalize num / den = low at *
  split
  · next hlt =>
    have hhalf : ((num % den : Nat) : ℚ) / den < 1 / 2 := by
      rw [div_lt_div_iff₀ hpos (by decide)]
      exact_mod_cast (by omega : num % den * 2 < 1 * den)
    left
    rw [sub_add_cancel_left, abs_neg, abs_of_nonneg hrest]
    exact hhalf
  · split
    · next hgt =>
      have hhalf : (1 : ℚ) / 2 < (num % den : Nat) / den := by
        rw [div_lt_div_iff₀ (by decide) hpos]
        exact_mod_cast (by omega : 1 * den < num % den * 2)
      have hone : ((num % den : Nat) : ℚ) / den < 1 := by
        rw [div_lt_one hpos]
        exact_mod_cast Nat.mod_lt num (Nat.pos_of_ne_zero hden)
      left
      push_cast
      rw [abs_lt]
      constructor <;> linarith
    · have hhalf : ((num % den : Nat) : ℚ) / den = 1 / 2 := by
        rw [div_eq_div_iff hpos.ne' (by decide)]
        exact_mod_cast (by omega : num % den * 2 = 1 * den)
      right
      rw [hhalf]
      refine ⟨?_, by omega⟩
      rcases Nat.mod_two_eq_zero_or_one low with h | h <;> rw [h] <;> push_cast <;> norm_num

/-! ## Nearest words -/

section Steps

variable {place : Int} {steps : Nat} {q : ℚ} (hplace : -1074 ≤ place)
  (hlow : place = -1074 ∨ hiddenBit * 2 ^ place ≤ q) (hhigh : q < 2 * hiddenBit * 2 ^ place)
  (hround : RoundsTo (q / 2 ^ place) steps)

include hplace hlow hhigh hround

theorem value_steps :
    value ((place + 1074).toNat * hiddenBit + steps) = steps * 2 ^ place := by
  have hstep : (0 : ℚ) < 2 ^ place := zpow_pos (by decide) _
  have hle := abs_le.mp hround.abs_le
  refine value_word hplace ?_ (hlow.imp_right fun hq => ?_)
  · have hquotient : q / 2 ^ place < 2 * hiddenBit := by rwa [div_lt_iff₀ hstep]
    have hlt : (steps : ℚ) < (2 * hiddenBit + 1 : Nat) := by
      push_cast
      linarith
    exact Nat.le_of_lt_succ (Nat.cast_lt.mp hlt)
  · have hquotient : (hiddenBit : ℚ) ≤ q / 2 ^ place := by rwa [le_div_iff₀ hstep]
    have hlt : (hiddenBit : ℚ) < (steps + 1 : Nat) := by
      push_cast
      linarith
    exact Nat.le_of_lt_succ (Nat.cast_lt.mp hlt)

/-- Rounding to steps of the last place gives the nearest of all words. -/
theorem near_steps (u : Nat) :
    |value ((place + 1074).toNat * hiddenBit + steps) - q| ≤ |value u - q| ∧
      (|value u - q| = |value ((place + 1074).toNat * hiddenBit + steps) - q| →
        u ≠ (place + 1074).toNat * hiddenBit + steps →
        ((place + 1074).toNat * hiddenBit + steps) % 2 = 0) := by
  have hstep : (0 : ℚ) < 2 ^ place := zpow_pos (by decide) _
  have hvalue := value_steps hplace hlow hhigh hround
  have hdistance (k : Nat) : |(k : ℚ) * 2 ^ place - q| = |(k : ℚ) - q / 2 ^ place| * 2 ^ place := by
    rw [← abs_of_pos hstep, ← abs_mul, abs_of_pos hstep, sub_mul, div_mul_cancel₀ _ hstep.ne']
  have heven (h : steps % 2 = 0) : ((place + 1074).toNat * hiddenBit + steps) % 2 = 0 := by
    unfold hiddenBit
    omega
  by_cases hu : place ≤ exponent u
  · -- The value of the word is a number of steps too.
    obtain ⟨j, hj⟩ := Int.le.dest hu
    have hword : value u = (significand u * 2 ^ j : Nat) * 2 ^ place := by
      rw [value_eq, ← hj, zpow_add₀ (by decide), zpow_natCast]
      push_cast
      ring
    obtain ⟨hnear, htie⟩ := hround.near (significand u * 2 ^ j)
    rw [hvalue, hdistance, hword, hdistance]
    refine ⟨mul_le_mul_of_nonneg_right hnear hstep.le, fun heq hne => heven (htie ?_ ?_)⟩
    · exact mul_right_cancel₀ hstep.ne' heq
    · intro hsteps
      refine hne (value_strictMono.injective ?_)
      rw [hvalue, hword, hsteps]
  · -- The word is below the words of this last place, the first of which is not above the number.
    have hq : hiddenBit * 2 ^ place ≤ q := by
      refine hlow.resolve_left fun heq => hu ?_
      rw [heq]
      exact Decimal.exponent_ge u
    have hbelow : value u < hiddenBit * 2 ^ place := by
      have hexponent : (2 : ℚ) ^ exponent u ≤ 2 ^ (place - 1) :=
        zpow_le_zpow_right₀ (by decide) (by omega)
      have hsignificand : (significand u : ℚ) < 2 * hiddenBit := by
        exact_mod_cast significand_lt u
      calc value u = significand u * 2 ^ exponent u := value_eq u
        _ ≤ significand u * 2 ^ (place - 1) :=
            mul_le_mul_of_nonneg_left hexponent (Nat.cast_nonneg _)
        _ < 2 * hiddenBit * 2 ^ (place - 1) :=
            mul_lt_mul_of_pos_right hsignificand (zpow_pos (by decide) _)
        _ = hiddenBit * 2 ^ place := by
            rw [zpow_sub_one₀ (by decide)]
            ring
    have hfirst := (hround.near hiddenBit).1
    have hlt : |value ((place + 1074).toNat * hiddenBit + steps) - q| < |value u - q| := by
      calc |value ((place + 1074).toNat * hiddenBit + steps) - q|
          = |(steps : ℚ) - q / 2 ^ place| * 2 ^ place := by rw [hvalue, hdistance]
        _ ≤ |(hiddenBit : ℚ) - q / 2 ^ place| * 2 ^ place :=
            mul_le_mul_of_nonneg_right hfirst hstep.le
        _ = |(hiddenBit : ℚ) * 2 ^ place - q| := (hdistance _).symm
        _ < |value u - q| := by
            rw [abs_of_nonpos (by linarith), abs_of_neg (by linarith)]
            linarith
    exact ⟨hlt.le, fun heq => absurd heq hlt.ne'⟩

end Steps

theorem lastPlace_bounds {num den : Nat} (hnum : num ≠ 0) (hden : den ≠ 0) :
    -1074 ≤ lastPlace num den ∧
      (lastPlace num den = -1074 ∨ hiddenBit * 2 ^ lastPlace num den ≤ (num : ℚ) / den) ∧
      (num : ℚ) / den < 2 * hiddenBit * 2 ^ lastPlace num den := by
  have hq : (0 : ℚ) < num / den :=
    div_pos (Nat.cast_pos.mpr (Nat.pos_of_ne_zero hnum)) (Nat.cast_pos.mpr (Nat.pos_of_ne_zero hden))
  have hhidden : (hiddenBit : ℚ) = 2 ^ (52 : Int) := by norm_num [hiddenBit]
  have hplace := lastPlace_eq_log hnum hden
  have hlog := Int.zpow_log_le_self (b := 2) (by decide) hq
  have hsucc := Int.lt_zpow_succ_log_self (b := 2) (by decide) ((num : ℚ) / den)
  push_cast at hlog hsucc
  refine ⟨by omega, ?_, ?_⟩
  · by_cases hleast : lastPlace num den = -1074
    · exact .inl hleast
    · right
      rw [hhidden, ← zpow_add₀ (by decide)]
      refine le_trans (zpow_le_zpow_right₀ (by decide) ?_) hlog
      omega
  · rw [hhidden, ← zpow_one_add₀ (by decide), ← zpow_add₀ (by decide)]
    refine lt_of_lt_of_le hsucc (zpow_le_zpow_right₀ (by decide) ?_)
    omega

theorem isNearest_nearest (num : Nat) {den : Nat} (hden : den ≠ 0) :
    IsNearest (nearest num den) (num / den) := by
  by_cases hnum : num = 0
  · subst hnum
    have hzero : value (nearest 0 den) = 0 := value_zero
    rw [Nat.cast_zero, zero_div]
    refine ⟨Nat.zero_le _, fun u _ => ?_, fun u _ heq hne => ?_⟩
    · rw [hzero, sub_zero, abs_zero]
      exact abs_nonneg _
    · rw [hzero, sub_zero, sub_zero, abs_zero, abs_eq_zero, ← hzero] at heq
      exact absurd (value_strictMono.injective heq) hne
  obtain ⟨hplace, hlow, hhigh⟩ := lastPlace_bounds hnum hden
  obtain ⟨steps, hsteps⟩ : ∃ steps, steps = roundHalfEven (num <<< (-lastPlace num den).toNat)
      (den <<< (lastPlace num den).toNat) := ⟨_, rfl⟩
  have hround : RoundsTo ((num : ℚ) / den / 2 ^ lastPlace num den) steps := by
    have hdenominator : den <<< (lastPlace num den).toNat ≠ 0 := by
      rw [Nat.shiftLeft_eq]
      exact Nat.mul_ne_zero hden (Nat.ne_of_gt (Nat.two_pow_pos _))
    have hpow := zpow_eq_div 2 (by decide) (lastPlace num den)
    push_cast at hpow
    have hrounded := roundsTo_roundHalfEven (num <<< (-lastPlace num den).toNat) hdenominator
    rw [← hsteps, Nat.shiftLeft_eq, Nat.shiftLeft_eq] at hrounded
    push_cast at hrounded
    rwa [hpow, div_div_div_eq]
  have hnear := near_steps hplace hlow hhigh hround
  have hword : nearest num den =
      min infinityWord ((lastPlace num den + 1074).toNat * hiddenBit + steps) := by
    rw [hsteps, nearest, if_neg hnum]
  generalize (lastPlace num den + 1074).toNat * hiddenBit + steps = w at hnear hword
  rw [hword]
  by_cases hw : w ≤ infinityWord
  · rw [Nat.min_eq_right hw]
    exact ⟨hw, fun u _ => (hnear u).1, fun u _ => (hnear u).2⟩
  · -- The nearest of all words is beyond infinity, so the number is not below the value of infinity.
    rw [Nat.min_eq_left (Nat.le_of_not_le hw)]
    have hlt : value infinityWord < value w := value_strictMono (Nat.lt_of_not_le hw)
    have hge : value infinityWord ≤ num / den := by
      by_contra hnot
      have hcloser := (hnear infinityWord).1
      rw [abs_of_pos (by linarith), abs_of_pos (by linarith)] at hcloser
      linarith
    have hdistance {u : Nat} (hu : u ≤ infinityWord) :
        |value u - num / den| = num / den - value u := by
      have hle : value u ≤ value infinityWord := value_strictMono.monotone hu
      rw [abs_of_nonpos (by linarith), neg_sub]
    refine ⟨Nat.le_refl _, fun u hu => ?_, fun _ _ _ _ => by decide⟩
    have hle : value u ≤ value infinityWord := value_strictMono.monotone hu
    rw [hdistance hu, hdistance (Nat.le_refl _)]
    linarith

theorem IsNearest.unique {w u : Nat} {q : ℚ} (hw : IsNearest w q) (hu : IsNearest u q) : w = u := by
  -- Between two even words there is another one, and it is nearer than the farther of them.
  have hnot {w u : Nat} (hw : IsNearest w q) (hu : IsNearest u q) : ¬w < u := by
    intro hlt
    have hdistance : |value u - q| = |value w - q| :=
      le_antisymm (hu.near w hw.le) (hw.near u hu.le)
    have hweven := hw.even u hu.le hdistance (Nat.ne_of_gt hlt)
    have hueven := hu.even w hw.le hdistance.symm (Nat.ne_of_lt hlt)
    have hvalues : value w < value u := value_strictMono hlt
    have hfirst : value w < value (w + 1) := value_strictMono (Nat.lt_succ_self w)
    have hsecond : value (w + 1) < value u := value_strictMono (by omega)
    have hmiddle : value u - q = -(value w - q) := by
      refine (abs_eq_abs.mp hdistance).resolve_left fun heq => ?_
      linarith
    have hcloser : |value (w + 1) - q| < |value w - q| := by
      rw [abs_of_neg (by linarith : value w - q < 0), abs_lt]
      constructor <;> linarith
    exact absurd (hw.near (w + 1) (Nat.le_trans hlt hu.le)) (not_le_of_gt hcloser)
  have hwu := hnot hw hu
  have huw := hnot hu hw
  omega

theorem value_nonneg (w : Nat) : 0 ≤ value w := by
  rw [value_eq]
  positivity

/-- No finite double is nearer, of either sign. -/
theorem IsNearest.le_double {w : Nat} {q : ℚ} (h : IsNearest w q) (hw : w < infinityWord)
    (hq : 0 ≤ q) {y : Float} (hy : y.isFinite = true) :
    |toRat (ofWord false w) - q| ≤ |toRat y - q| := by
  have hlt := magnitude_lt hy
  have hnear := h.near (magnitude y) hlt.le
  have hpos := value_nonneg (magnitude y)
  rw [toRat_ofWord hw, if_neg nofun, ← ofWord_parts hy, toRat_ofWord hlt]
  split
  · -- Below zero it is farther than the double of the other sign.
    refine hnear.trans ?_
    rw [abs_of_nonpos (by linarith : -value (magnitude y) - q ≤ 0), abs_le]
    constructor <;> linarith
  · exact hnear

/-- **The double of a quotient is the nearest.** -/
theorem nearest_iff {w num den : Nat} (hden : den ≠ 0) :
    IsNearest w (num / den) ↔ w = nearest num den := by
  constructor
  · intro h
    exact h.unique (isNearest_nearest num hden)
  · rintro rfl
    exact isNearest_nearest num hden

end Binary64

end Reckoner
