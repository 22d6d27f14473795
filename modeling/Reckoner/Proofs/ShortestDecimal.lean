import Mathlib.Algebra.Order.Floor.Semifield
import Mathlib.Data.Int.Log
import Mathlib.Data.Rat.Floor
import Mathlib.Tactic.FieldSimp
import Mathlib.Tactic.Positivity
import Reckoner.Proofs.Spelling

/-!
# Shortest decimals

The search for the shortest decimal of a double ends with one that reads back as the double
(`Decimal.wordAt_shortest`): it stops at a decimal that was tried, and on its last grid the double
itself stands. Where the layout is positional, the characters of the decimal are a literal of its
value (`Number.ofLiteral_shortest`). The literal has another denominator than the decimal, but which
double is nearest depends on the quotient alone (`Binary64.nearest_congr`).
-/

namespace Reckoner

/-- An integral power as a fraction of natural ones. -/
theorem zpow_eq_div (b : Nat) (hb : b ≠ 0) (n : Int) :
    (b : ℚ) ^ n = (b : ℚ) ^ n.toNat / (b : ℚ) ^ (-n).toNat := by
  have hb : (b : ℚ) ≠ 0 := Nat.cast_ne_zero.mpr hb
  obtain ⟨k, rfl | rfl⟩ := n.eq_nat_or_neg
  · simp
  · simp

theorem powerOfTen_eq (n : Nat) : powerOfTen n = 10 ^ n := rfl

theorem powerOfTen_ne_zero (n : Nat) : powerOfTen n ≠ 0 := Nat.ne_of_gt (Nat.pow_pos (by decide))

namespace Binary64

/-! ## The nearest double of a quotient -/

theorem shiftLeft_le_iff {num den : Nat} (hden : den ≠ 0) (n : Int) :
    den <<< n.toNat ≤ num <<< (-n).toNat ↔ ((2 : Nat) : ℚ) ^ n ≤ num / den := by
  have hpos : (0 : ℚ) < den := Nat.cast_pos.mpr (Nat.pos_of_ne_zero hden)
  have htwo : (0 : ℚ) < ((2 : Nat) : ℚ) ^ (-n).toNat := by positivity
  rw [zpow_eq_div 2 (by decide), div_le_div_iff₀ htwo hpos, Nat.shiftLeft_eq, Nat.shiftLeft_eq,
    mul_comm den]
  exact_mod_cast Iff.rfl

theorem lastPlace_eq_log {num den : Nat} (hnum : num ≠ 0) (hden : den ≠ 0) :
    lastPlace num den = max (Int.log 2 ((num : ℚ) / den) - 52) (-1074) := by
  have hn : (0 : ℚ) < num := Nat.cast_pos.mpr (Nat.pos_of_ne_zero hnum)
  have hd : (0 : ℚ) < den := Nat.cast_pos.mpr (Nat.pos_of_ne_zero hden)
  have hquotient : (0 : ℚ) < num / den := div_pos hn hd
  have hle (n : Int) := Int.zpow_le_iff_le_log (R := ℚ) (b := 2) (by decide) (x := n) hquotient
  have hlt (n : Int) := Int.lt_zpow_iff_log_lt (R := ℚ) (b := 2) (by decide) (x := n) hquotient
  -- The logarithms of the two sides decide all but one bit.
  have hlow : (num.log2 : Int) - den.log2 - 1 ≤ Int.log 2 ((num : ℚ) / den) := by
    rw [← hle, zpow_sub₀ (by decide), zpow_sub₀ (by decide), zpow_natCast, zpow_natCast, zpow_one,
      div_div, div_le_div_iff₀ (by positivity) hd]
    have hnum : ((2 ^ num.log2 : Nat) : ℚ) ≤ num := Nat.cast_le.mpr (Nat.log2_self_le hnum)
    have hden : (den : ℚ) ≤ ((2 ^ (den.log2 + 1) : Nat) : ℚ) :=
      Nat.cast_le.mpr (Nat.le_of_lt Nat.lt_log2_self)
    push_cast [pow_succ] at hnum hden ⊢
    exact mul_le_mul hnum hden hd.le hn.le
  have hhigh : Int.log 2 ((num : ℚ) / den) < (num.log2 : Int) - den.log2 + 1 := by
    rw [← hlt, zpow_add₀ (by decide), zpow_sub₀ (by decide), zpow_natCast, zpow_natCast, zpow_one,
      div_mul_eq_mul_div, div_lt_div_iff₀ hd (by positivity)]
    have hnum : (num : ℚ) < ((2 ^ (num.log2 + 1) : Nat) : ℚ) := Nat.cast_lt.mpr Nat.lt_log2_self
    have hden : ((2 ^ den.log2 : Nat) : ℚ) ≤ den := Nat.cast_le.mpr (Nat.log2_self_le hden)
    push_cast [pow_succ] at hnum hden ⊢
    exact mul_lt_mul hnum hden (by positivity) (by positivity)
  unfold lastPlace
  simp only [shiftLeft_le_iff hden, hle]
  split <;> omega

theorem roundHalfEven_mul_right {k : Nat} (hk : k ≠ 0) (num den : Nat) :
    roundHalfEven (num * k) (den * k) = roundHalfEven num den := by
  have hpos : 0 < k := Nat.pos_of_ne_zero hk
  unfold roundHalfEven
  dsimp only
  rw [Nat.mul_div_mul_right _ _ hpos, Nat.mul_mod_mul_right, ← Nat.mul_assoc]
  simp only [Nat.mul_lt_mul_right hpos]

theorem nearest_mul_right {num den k : Nat} (hden : den ≠ 0) (hk : k ≠ 0) :
    nearest (num * k) (den * k) = nearest num den := by
  by_cases hnum : num = 0
  · simp [nearest, hnum]
  have hplace : lastPlace (num * k) (den * k) = lastPlace num den := by
    rw [lastPlace_eq_log (Nat.mul_ne_zero hnum hk) (Nat.mul_ne_zero hden hk),
      lastPlace_eq_log hnum hden]
    push_cast
    rw [mul_div_mul_right _ _ (Nat.cast_ne_zero.mpr hk)]
  unfold nearest
  rw [if_neg (Nat.mul_ne_zero hnum hk), if_neg hnum, hplace]
  dsimp only
  simp only [Nat.shiftLeft_eq, Nat.mul_right_comm _ k, roundHalfEven_mul_right hk]

/-- Which double is nearest depends on the quotient alone. -/
theorem nearest_congr {a b c d : Nat} (hb : b ≠ 0) (hd : d ≠ 0) (h : (a : ℚ) / b = c / d) :
    nearest a b = nearest c d := by
  have hcross : a * d = c * b := by
    rw [div_eq_div_iff (Nat.cast_ne_zero.mpr hb) (Nat.cast_ne_zero.mpr hd)] at h
    exact_mod_cast h
  rw [← nearest_mul_right hb hd, hcross, Nat.mul_comm b, nearest_mul_right hd hb]

/-- The value of a finite magnitude word. -/
def value (w : Nat) : ℚ := numerator w / denominator w

theorem value_zero : value 0 = 0 := by simp [value, numerator, significand]

theorem denominator_ne_zero (w : Nat) : denominator w ≠ 0 := by
  rw [denominator, Nat.shiftLeft_eq, Nat.one_mul]
  exact Nat.ne_of_gt (Nat.two_pow_pos _)

theorem numerator_ne_zero {w : Nat} (hw : w ≠ 0) : numerator w ≠ 0 := by
  have hm : significand w ≠ 0 := Nat.ne_of_gt (significand_pos (Nat.pos_of_ne_zero hw))
  rw [numerator, Nat.shiftLeft_eq]
  exact Nat.mul_ne_zero hm (Nat.ne_of_gt (Nat.two_pow_pos _))

theorem nearest_of_eq_value {w a b : Nat} (hw : w < infinityWord) (hb : b ≠ 0)
    (h : (a : ℚ) / b = value w) : nearest a b = w := by
  have hexact := nearest_exact hw (c := 1) (by decide)
  rw [Nat.mul_one, Nat.mul_one] at hexact
  rw [nearest_congr hb (denominator_ne_zero w) h, hexact]

end Binary64

namespace Decimal

open Binary64 (value numerator denominator infinityWord)

/-! ## The first digit -/

theorem digitCount_le_iff {n k : Nat} : digitCount n ≤ k ↔ n < 10 ^ k := by
  fun_induction digitCount n generalizing k with
  | case1 => simp
  | case2 n hn ih =>
    cases k with
    | zero => simp [hn]
    | succ k => rw [Nat.add_le_add_iff_right, ih, Nat.pow_succ, Nat.div_lt_iff_lt_mul (by decide)]

theorem digitCount_pos {n : Nat} (hn : n ≠ 0) : 0 < digitCount n := by
  rw [← Nat.not_le, digitCount_le_iff, Nat.pow_zero, Nat.lt_one_iff]
  exact hn

theorem digitCount_eq_length {n : Nat} (hn : n ≠ 0) :
    digitCount n = (Nat.toDigits 10 n).length := by
  have hpos := digitCount_pos hn
  apply Nat.le_antisymm
  · rw [digitCount_le_iff, ← Nat.length_toDigits_le_iff (by decide) Nat.length_toDigits_pos]
  · rw [Nat.length_toDigits_le_iff (by decide) hpos, ← digitCount_le_iff]

theorem zpow_leadingExponent_le {num den : Nat} (hnum : num ≠ 0) (hden : den ≠ 0) :
    (10 : ℚ) ^ leadingExponent num den ≤ num / den := by
  have hd : (0 : ℚ) < den := Nat.cast_pos.mpr (Nat.pos_of_ne_zero hden)
  unfold leadingExponent
  split
  · next hle =>
    have hne : num / den ≠ 0 := Nat.ne_of_gt (Nat.div_pos hle (Nat.pos_of_ne_zero hden))
    obtain ⟨k, hk⟩ : ∃ k, digitCount (num / den) = k + 1 :=
      Nat.exists_eq_add_one.mpr (digitCount_pos hne)
    have hpow : 10 ^ k ≤ num / den := by
      rw [← Nat.not_lt, ← digitCount_le_iff, hk]
      exact Nat.not_succ_le_self k
    rw [hk, Nat.cast_succ, add_sub_cancel_right, zpow_natCast, le_div_iff₀ hd]
    rw [Nat.le_div_iff_mul_le (Nat.pos_of_ne_zero hden)] at hpow
    exact_mod_cast hpow
  · have hlt := digitCount_le_iff.mp (Nat.le_refl (digitCount ((den - 1) / num)))
    rw [Nat.div_lt_iff_lt_mul (Nat.pos_of_ne_zero hnum)] at hlt
    have hle : den ≤ 10 ^ digitCount ((den - 1) / num) * num := by omega
    rw [zpow_neg, zpow_natCast, inv_eq_one_div, div_le_div_iff₀ (by positivity) hd, one_mul,
      mul_comm (num : ℚ)]
    exact_mod_cast hle

/-! ## The search -/

theorem inUnits_div (num den : Nat) (place : Int) :
    (inUnits num den place).1 / (inUnits num den place).2 =
      ⌊(num : ℚ) / den / 10 ^ place⌋₊ := by
  have hpow := zpow_eq_div 10 (by decide) place
  push_cast at hpow
  rw [hpow, div_div_div_eq, inUnits, ← Nat.floor_div_eq_div (K := ℚ), powerOfTen_eq, powerOfTen_eq]
  push_cast
  rfl

theorem wordAt_eq_nearest {c : Nat} {place : Int} {a b : Nat} (hb : b ≠ 0)
    (h : (a : ℚ) / b = c * 10 ^ place) : wordAt c place = Binary64.nearest a b := by
  have hpow := zpow_eq_div 10 (by decide) place
  push_cast at hpow
  have hten : (10 : Nat) ^ (-place).toNat ≠ 0 := Nat.ne_of_gt (Nat.pow_pos (by decide))
  refine Binary64.nearest_congr hten hb ?_
  rw [h, hpow, powerOfTen_eq, powerOfTen_eq]
  push_cast
  rw [mul_div_assoc]

/-- A decimal on a grid from `10 ^ place` down that reads back as the word, next to its value. -/
structure Hits (w : Nat) (place : Int) (d : Decimal) : Prop where
  wordAt_eq : wordAt d.coefficient d.exponent = w
  exponent_le : d.exponent ≤ place
  near : d.coefficient = ⌊value w / 10 ^ d.exponent⌋₊ ∨
    d.coefficient = ⌊value w / 10 ^ d.exponent⌋₊ + 1

theorem hits_of_hit? {w : Nat} {place : Int} {d : Decimal} (h : hit? w place = some d) :
    Hits w place d := by
  have hfloor := inUnits_div (numerator w) (denominator w) place
  have hround := roundHalfEven_eq_or (inUnits (numerator w) (denominator w) place).1
    (inUnits (numerator w) (denominator w) place).2
  unfold hit? at h
  dsimp only at h
  rw [hfloor] at h hround
  have hfar {c : Nat} (hc : c = ⌊value w / 10 ^ place⌋₊ ∨ c = ⌊value w / 10 ^ place⌋₊ + 1)
      (hd : (if wordAt c place = w then some ⟨c, place⟩ else none) = some d) :
      Hits w place d := by
    split at hd
    · next hword =>
      cases hd
      exact ⟨hword, le_refl _, hc⟩
    · cases hd
  split at h
  · next hword =>
    cases h
    exact ⟨hword, le_refl _, hround⟩
  · refine hfar ?_ h
    split
    · exact .inr rfl
    · exact .inl rfl

theorem exponent_ge (w : Nat) : -1074 ≤ Binary64.exponent w := by
  unfold Binary64.exponent
  split
  · exact le_refl _
  · next hw =>
    have hpos : 1 ≤ w / Binary64.hiddenBit :=
      (Nat.one_le_div_iff (by decide)).mpr (Nat.le_of_not_lt hw)
    omega

theorem denominator_dvd (w : Nat) {n : Nat} (hn : 1074 ≤ n) : denominator w ∣ 10 ^ n := by
  have hexponent := exponent_ge w
  have hle : (-Binary64.exponent w).toNat ≤ n := by omega
  rw [denominator, Nat.shiftLeft_eq, Nat.one_mul]
  exact (Nat.pow_dvd_pow 2 hle).trans (pow_dvd_pow_of_dvd (by decide) n)

/-- On a grid this fine every double stands exactly. -/
theorem hits_exact {w n : Nat} (hw : w < infinityWord) (hn : 1074 ≤ n) : Hits w (-n)
    ⟨roundHalfEven (inUnits (numerator w) (denominator w) (-n)).1
      (inUnits (numerator w) (denominator w) (-n)).2, -n⟩ := by
  obtain ⟨k, hk⟩ := denominator_dvd w hn
  have hd := Binary64.denominator_ne_zero w
  have hunits : inUnits (numerator w) (denominator w) (-n) =
      (numerator w * k * denominator w, denominator w) := by
    rw [inUnits, neg_neg, Int.toNat_natCast, Int.toNat_neg_natCast, powerOfTen_eq, hk,
      powerOfTen_zero, Nat.mul_one, Nat.mul_comm (denominator w) k, Nat.mul_assoc]
  have hround : roundHalfEven (numerator w * k * denominator w) (denominator w) = numerator w * k :=
    roundHalfEven_mul_self _ (Nat.pos_of_ne_zero hd)
  have hfloor := inUnits_div (numerator w) (denominator w) (-n)
  rw [hunits] at hfloor ⊢
  dsimp only at hfloor ⊢
  rw [Nat.mul_div_cancel _ (Nat.pos_of_ne_zero hd)] at hfloor
  rw [hround]
  refine ⟨?_, le_refl _, .inl hfloor⟩
  have hvalue : (numerator w : ℚ) / denominator w = ((numerator w * k : Nat) : ℚ) * 10 ^ (-n : ℤ) := by
    have hcast : (denominator w : ℚ) * k = 10 ^ n := by exact_mod_cast hk.symm
    have hk0 : (k : ℚ) ≠ 0 := by
      rintro hk0
      rw [hk0, mul_zero] at hcast
      exact pow_ne_zero n (by decide) hcast.symm
    have hden : (denominator w : ℚ) ≠ 0 := Nat.cast_ne_zero.mpr hd
    rw [zpow_neg, zpow_natCast, ← hcast]
    push_cast
    field_simp
  rw [wordAt_eq_nearest hd hvalue]
  exact Binary64.nearest_of_eq_value hw hd rfl

theorem hits_search {w : Nat} (hw : w < infinityWord) {grids : Nat} {place : Int}
    (h : place - grids ≤ -1074) : Hits w place (search w grids place) := by
  induction grids generalizing place with
  | zero =>
    obtain ⟨n, rfl⟩ : ∃ n : Nat, place = -n := ⟨place.natAbs, by omega⟩
    exact hits_exact hw (by omega)
  | succ grids ih =>
    rw [search]
    cases hhit : hit? w place with
    | some d => exact hits_of_hit? hhit
    | none =>
      have hnext : place - 1 - grids ≤ -1074 := by omega
      obtain ⟨hword, hle, hnear⟩ := ih hnext
      exact ⟨hword, by simp only [Option.getD_none]; omega, hnear⟩

/-- The shortest decimal of a positive double reads back as the double. -/
theorem hits_shortest {w : Nat} (hw : w < infinityWord) :
    Hits w (leadingExponent (numerator w) (denominator w)) (shortest w) :=
  hits_search hw (by omega)

/-! ## The places of the digits -/

/-- The digits of a positive number but for the zeros at their end. -/
theorem digitChars_spec {n : Nat} (hn : n ≠ 0) :
    ∃ zeros, Nat.toDigits 10 n = digitChars n ++ List.replicate zeros '0' ∧ digitChars n ≠ [] := by
  have hsplit := List.takeWhile_append_dropWhile (p := (· == '0')) (l := (Nat.toDigits 10 n).reverse)
  have hzeros : (Nat.toDigits 10 n).reverse.takeWhile (· == '0') =
      List.replicate ((Nat.toDigits 10 n).reverse.takeWhile (· == '0')).length '0' := by
    refine List.eq_replicate_iff.mpr ⟨rfl, fun c hc => ?_⟩
    simpa using List.all_eq_true.mp List.all_takeWhile c hc
  generalize (Nat.toDigits 10 n).reverse.takeWhile (· == '0') = front at hsplit hzeros
  have hdigits : Nat.toDigits 10 n =
      ((Nat.toDigits 10 n).reverse.dropWhile (· == '0')).reverse ++
        List.replicate front.length '0' := by
    have hreverse := congrArg List.reverse hsplit
    rw [List.reverse_append, List.reverse_reverse, hzeros, List.reverse_replicate] at hreverse
    exact hreverse.symm
  unfold digitChars
  cases hds : ((Nat.toDigits 10 n).reverse.dropWhile (· == '0')).reverse with
  | nil =>
    -- Zeros alone are the digits of no positive number.
    rw [hds, List.nil_append] at hdigits
    have hvalue := Nat.ofDigitChars_ten_toDigits (n := n)
    rw [hdigits, Nat.ofDigitChars_replicate_zero, Nat.mul_zero] at hvalue
    exact absurd hvalue.symm hn
  | cons d ds =>
    rw [hds] at hdigits
    exact ⟨front.length, hdigits, nofun⟩

theorem isDigits_digitChars {n : Nat} (hn : n ≠ 0) : Numeral.IsDigits (digitChars n) := by
  obtain ⟨zeros, hdigits, hne⟩ := digitChars_spec hn
  apply (Numeral.isDigits_toDigits n).of_subset hne
  rw [hdigits]
  exact List.subset_append_left _ _

end Decimal

namespace Numeral

/-- The characters are a literal with a fraction, of this value. -/
def Positional (cs : List Char) (v : ℚ) : Prop :=
  ∃ whole fraction, ofChars? cs = some ⟨whole, some fraction⟩ ∧
    (natValue (whole ++ fraction) : ℚ) / 10 ^ fraction.length = v

theorem Positional.intro {whole fraction : List Char} {v : ℚ} (hwhole : IsDigits whole)
    (hfraction : IsDigits fraction)
    (hv : (natValue (whole ++ fraction) : ℚ) / 10 ^ fraction.length = v) :
    Positional (whole ++ '.' :: fraction) v :=
  ⟨whole, fraction, ofChars?_eq_fraction hwhole hfraction, hv⟩

section Layout

variable {ds : List Char} (hdigits : IsDigits ds)

include hdigits

theorem Positional.behind_zeros (n : Nat) :
    Positional ('0' :: '.' :: (List.replicate n '0' ++ ds)) (natValue ds / 10 ^ (n + ds.length)) := by
  refine Positional.intro isDigits_zero (hdigits.zeros_append n) ?_
  have hvalue := natValue_zeros_append ds (n + 1)
  rw [List.replicate_succ, List.cons_append] at hvalue
  rw [List.singleton_append, hvalue, List.length_append, List.length_replicate]

theorem Positional.before_zeros (n : Nat) :
    Positional (ds ++ List.replicate n '0' ++ ['.', '0']) (natValue ds * 10 ^ n) := by
  refine Positional.intro (hdigits.append_zeros n) isDigits_zero ?_
  have hvalue := natValue_append_zeros ds (n + 1)
  rw [List.replicate_succ', ← List.append_assoc] at hvalue
  rw [hvalue, List.length_singleton]
  push_cast
  ring

theorem Positional.around_point {n : Nat} (hn : n ≠ 0) (hlt : n < ds.length) :
    Positional (ds.take n ++ '.' :: ds.drop n) (natValue ds / 10 ^ (ds.length - n)) := by
  apply Positional.intro
  · apply hdigits.of_subset _ (List.take_subset _ _)
    rw [ne_eq, List.take_eq_nil_iff]
    simp [hn, hdigits.1]
  · apply hdigits.of_subset _ (List.drop_subset _ _)
    rw [ne_eq, List.drop_eq_nil_iff]
    omega
  · rw [List.take_append_drop, List.length_drop]

end Layout

end Numeral

namespace Decimal

open Binary64 (value numerator denominator infinityWord)

/-- Digits set out in positional form are a literal of the number they stand for. -/
theorem positional_positionalChars {ds : List Char} (hdigits : Numeral.IsDigits ds)
    (lead : Int) :
    Numeral.Positional (positionalChars .plain ds lead)
      (Numeral.natValue ds * 10 ^ (lead + 1 - ds.length)) := by
  unfold positionalChars
  split
  · next hlead =>
    have hplaces : lead + 1 - ds.length = -(((-lead - 1).toNat + ds.length : Nat) : Int) := by
      omega
    rw [hplaces, zpow_neg, zpow_natCast, ← div_eq_mul_inv]
    exact .behind_zeros hdigits _
  · next hlead =>
    obtain ⟨n, rfl⟩ := Int.eq_ofNat_of_zero_le (Int.not_lt.mp hlead)
    simp only [Int.toNat_natCast]
    cases hrest : ds.drop (n + 1) with
    | nil =>
      have hlength : ds.length ≤ n + 1 := List.drop_eq_nil_iff.mp hrest
      have hplaces : (n : Int) + 1 - ds.length = ((n + 1 - ds.length : Nat) : Int) := by omega
      rw [hplaces, zpow_natCast, List.take_of_length_le hlength]
      exact .before_zeros hdigits _
    | cons d rest =>
      have hlength : n + 1 < ds.length := by
        rw [← Nat.not_le]
        intro hle
        rw [List.drop_eq_nil_iff.mpr hle] at hrest
        cases hrest
      have hzero : n + 1 - ds.length = 0 := by omega
      have hplaces : (n : Int) + 1 - ds.length = -((ds.length - (n + 1) : Nat) : Int) := by omega
      have hpoint := Numeral.Positional.around_point hdigits (n := n + 1) (by omega) hlength
      rw [hrest] at hpoint
      rw [hplaces, zpow_neg, zpow_natCast, ← div_eq_mul_inv, hzero, List.replicate_zero,
        List.append_nil]
      exact hpoint

/-- The digits at their places are the decimal. -/
theorem natValue_digitChars {d : Decimal} (hd : d.coefficient ≠ 0) :
    (Numeral.natValue (digitChars d.coefficient) : ℚ) * 10 ^
        (d.exponent + digitCount d.coefficient - 1 + 1 - (digitChars d.coefficient).length) =
      d.coefficient * 10 ^ d.exponent := by
  obtain ⟨zeros, hdigits, -⟩ := digitChars_spec hd
  have hvalue : (d.coefficient : ℚ) =
      10 ^ zeros * Numeral.natValue (digitChars d.coefficient) := by
    have hten := Nat.ofDigitChars_ten_toDigits (n := d.coefficient)
    rw [hdigits] at hten
    have hzeros := Numeral.natValue_append_zeros (digitChars d.coefficient) zeros
    rw [Numeral.natValue, hten] at hzeros
    exact_mod_cast hzeros
  have hlength := congrArg List.length hdigits
  rw [← digitCount_eq_length hd, List.length_append, List.length_replicate] at hlength
  have hplaces : d.exponent + digitCount d.coefficient - 1 + 1 -
      (digitChars d.coefficient).length = d.exponent + zeros := by
    omega
  rw [hplaces, zpow_add₀ (by decide), zpow_natCast, hvalue]
  ring

/-- A decimal in positional form is a literal of its value. -/
theorem positional_chars {d : Decimal} (hd : d.coefficient ≠ 0)
    (hlow : -4 ≤ d.exponent + digitCount d.coefficient - 1)
    (hhigh : d.exponent + digitCount d.coefficient - 1 < 16) :
    Numeral.Positional (d.chars .plain) (d.coefficient * 10 ^ d.exponent) := by
  rw [chars, layoutChars, if_pos ⟨hlow, hhigh⟩, ← natValue_digitChars hd]
  exact positional_positionalChars (isDigits_digitChars hd) _

/-! ## Doubles that are set out in positional form -/

section Shortest

variable {w : Nat} (hw : w < infinityWord)

include hw

theorem zpow_exponent_shortest_le (hpos : w ≠ 0) : (10 : ℚ) ^ (shortest w).exponent ≤ value w :=
  (zpow_le_zpow_right₀ (by decide) (hits_shortest hw).exponent_le).trans
    (zpow_leadingExponent_le (Binary64.numerator_ne_zero hpos) (Binary64.denominator_ne_zero w))

theorem floor_le_coefficient :
    ⌊value w / 10 ^ (shortest w).exponent⌋₊ ≤ (shortest w).coefficient := by
  rcases (hits_shortest hw).near with h | h <;> omega

theorem coefficient_shortest_ne_zero (hpos : w ≠ 0) : (shortest w).coefficient ≠ 0 := by
  have hten : (0 : ℚ) < 10 ^ (shortest w).exponent := zpow_pos (by decide) _
  have hone : 1 ≤ ⌊value w / 10 ^ (shortest w).exponent⌋₊ := by
    rw [Nat.one_le_floor_iff, one_le_div hten]
    exact zpow_exponent_shortest_le hw hpos
  have hfloor := floor_le_coefficient hw
  omega

/-- The first digit stands no lower than a power of ten that the value reaches. -/
theorem le_lead_shortest (hpos : w ≠ 0) {n : Int} (hlow : (10 : ℚ) ^ n ≤ value w) :
    n ≤ (shortest w).exponent + digitCount (shortest w).coefficient - 1 := by
  have hten : (0 : ℚ) < 10 ^ (shortest w).exponent := zpow_pos (by decide) _
  have hdigits := digitCount_pos (coefficient_shortest_ne_zero hw hpos)
  by_cases hplace : n < (shortest w).exponent
  · omega
  · obtain ⟨k, hk⟩ : ∃ k : Nat, (k : Int) = n - (shortest w).exponent :=
      ⟨(n - (shortest w).exponent).toNat, by omega⟩
    have hle : 10 ^ k ≤ (shortest w).coefficient := by
      refine (Nat.le_floor ?_).trans (floor_le_coefficient hw)
      rw [le_div_iff₀ hten]
      push_cast
      rw [← zpow_natCast, hk, ← zpow_add₀ (by decide), sub_add_cancel]
      exact hlow
    have hnot := Nat.not_lt_of_le hle
    rw [← digitCount_le_iff] at hnot
    omega

/-- The first digit stands below a power of ten that the value does not reach, nor the double nearest to
the power. -/
theorem lead_shortest_lt (hpos : w ≠ 0) {n : Int} (hhigh : value w < 10 ^ n) {a b : Nat}
    (hb : b ≠ 0) (hpower : (a : ℚ) / b = 10 ^ n) (hnearest : 10 ^ n ≤ value (Binary64.nearest a b)) :
    (shortest w).exponent + digitCount (shortest w).coefficient ≤ n := by
  have hten : (0 : ℚ) < 10 ^ (shortest w).exponent := zpow_pos (by decide) _
  have hplace : (shortest w).exponent < n := by
    have hlt := (zpow_exponent_shortest_le hw hpos).trans_lt hhigh
    rwa [zpow_lt_zpow_iff_right₀ (by decide)] at hlt
  obtain ⟨k, hk⟩ : ∃ k : Nat, (k : Int) = n - (shortest w).exponent :=
    ⟨(n - (shortest w).exponent).toNat, by omega⟩
  have hscale : (10 : ℚ) ^ k * 10 ^ (shortest w).exponent = 10 ^ n := by
    rw [← zpow_natCast, hk, ← zpow_add₀ (by decide), sub_add_cancel]
  have hfloor : ⌊value w / 10 ^ (shortest w).exponent⌋₊ < 10 ^ k := by
    rw [Nat.floor_lt' (by positivity), div_lt_iff₀ hten]
    push_cast
    rwa [hscale]
  -- A decimal of a smaller double is not the power, which is read as a double that is not smaller.
  have hne : (shortest w).coefficient ≠ 10 ^ k := by
    intro hc
    have hword := (hits_shortest hw).wordAt_eq
    rw [wordAt_eq_nearest hb (by rw [hc, hpower, ← hscale]; push_cast; rfl)] at hword
    rw [hword] at hnearest
    exact absurd hhigh (not_lt_of_ge hnearest)
  have hlt : (shortest w).coefficient < 10 ^ k := by
    rcases (hits_shortest hw).near with h | h <;> omega
  rw [← digitCount_le_iff] at hlt
  omega

/-- The numbers of the positional form are those from `10 ^ (-4)` to `10 ^ 16`. -/
theorem positional_shortest_iff (hpos : w ≠ 0) :
    (-4 ≤ (shortest w).exponent + digitCount (shortest w).coefficient - 1 ∧
      (shortest w).exponent + digitCount (shortest w).coefficient - 1 < 16) ↔
    (10 : ℚ) ^ (-4 : Int) ≤ value w ∧ value w < 10 ^ 16 := by
  have hreaches {a b : Nat} (hb : 0 < b) (h : a * denominator (Binary64.nearest a b) ≤
      numerator (Binary64.nearest a b) * b) : (a : ℚ) / b ≤ value (Binary64.nearest a b) := by
    have hden := Nat.pos_of_ne_zero (Binary64.denominator_ne_zero (Binary64.nearest a b))
    rw [value, div_le_div_iff₀ (by exact_mod_cast hb) (by exact_mod_cast hden)]
    exact_mod_cast h
  have hleast : ((1 : Nat) : ℚ) / (10000 : Nat) = 10 ^ (-4 : Int) := by norm_num
  have hgreatest : ((10 ^ 16 : Nat) : ℚ) / (1 : Nat) = 10 ^ (16 : Int) := by norm_num
  have hlow := hreaches (a := 1) (b := 10000) (by decide) (by decide +kernel)
  have hhigh := hreaches (a := 10 ^ 16) (b := 1) (by decide) (by decide +kernel)
  rw [hleast] at hlow
  rw [hgreatest] at hhigh
  constructor
  · rintro ⟨hlead, hlead'⟩
    constructor
    · by_contra hlt
      have hbelow := lead_shortest_lt hw hpos (not_le.mp hlt) (by decide) hleast hlow
      omega
    · by_contra hge
      have habove := le_lead_shortest hw hpos (n := 16) (by exact_mod_cast not_lt.mp hge)
      omega
  · rintro ⟨hge, hlt⟩
    have hfrom := le_lead_shortest hw hpos hge
    have hbelow := lead_shortest_lt hw hpos (n := 16) (by exact_mod_cast hlt) (by decide) hgreatest hhigh
    omega

end Shortest

end Decimal

/-- **The text of a double is read as the double**, where it is set out in positional form. -/
theorem Number.ofLiteral_shortest {w : Nat} (hw : w < Binary64.infinityWord)
    (hlow : (10 : ℚ) ^ (-4 : Int) ≤ Binary64.value w) (hhigh : Binary64.value w < 10 ^ 16) :
    ofLiteral ((Decimal.shortest w).chars .plain) = .ok (float (Binary64.ofWord false w)) := by
  have hpos : w ≠ 0 := by
    rintro rfl
    rw [Binary64.value_zero] at hlow
    exact absurd hlow (not_le_of_gt (zpow_pos (by decide) _))
  obtain ⟨hlead, hlead'⟩ := (Decimal.positional_shortest_iff hw hpos).mpr ⟨hlow, hhigh⟩
  obtain ⟨whole, fraction, hnumeral, hvalue⟩ := Decimal.positional_chars
    (Decimal.coefficient_shortest_ne_zero hw hpos) hlead hlead'
  have hten := powerOfTen_ne_zero fraction.length
  have hquotient : (Numeral.natValue (whole ++ fraction) : ℚ) / powerOfTen fraction.length =
      (Decimal.shortest w).coefficient * 10 ^ (Decimal.shortest w).exponent := by
    rw [powerOfTen_eq]
    push_cast
    exact hvalue
  have hnearest : Binary64.nearest (Numeral.natValue (whole ++ fraction))
      (powerOfTen fraction.length) = w := by
    rw [← Decimal.wordAt_eq_nearest hten hquotient]
    exact (Decimal.hits_shortest hw).wordAt_eq
  unfold ofLiteral
  rw [hnumeral]
  dsimp only
  rw [Binary64.ofFraction, hnearest]
  exact if_pos (Binary64.isFinite_ofWord hw)

end Reckoner
