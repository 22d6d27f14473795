import Reckoner.Proofs.Domains
import Reckoner.Proofs.Elementary

/-!
# Signs of powers

The powers of a negative base alternate in sign with the exponent, as long as the exponent keeps its
parity (`pow_neg_iff_odd`). An integer to an exponent that is not negative is computed exactly and always
has the right sign. Every other power is computed on doubles, where an odd exponent of more than 53 bits
has become even: its power is positive (`pow_odd_exponent_positive`).
-/

namespace Reckoner

theorem Binary64.promoted_parity {n : Int} (hn : Number.Fits n) :
    ∃ k : Int, toRat (ofInt n) = k ∧ (Odd k ↔ Odd n ∧ n.natAbs ≤ 2 ^ 53) := by
  rcases toRat_ofInt_cases hn with ⟨hsmall, hexact⟩ | ⟨hlarge, m, heven, -, -⟩
  · refine ⟨n, hexact, (and_iff_left ?_).symm⟩
    exact Nat.le_of_lt hsmall
  · refine ⟨2 * m, heven, ?_⟩
    have hbits : 2 * hiddenBit = 2 ^ 53 := rfl
    rw [hbits] at hlarge
    have hpower : Even (2 ^ 53 : Nat) := by decide
    -- The only exponent that could be odd here is `2 ^ 53` itself.
    rw [← Int.not_even_iff_odd, ← Int.natAbs_odd, ← Nat.not_even_iff_odd]
    refine iff_of_false (not_not_intro (even_two_mul m)) ?_
    rintro ⟨hodd, hle⟩
    rw [Nat.le_antisymm hle hlarge] at hodd
    exact hodd hpower

theorem pow_neg_iff {m : Int} (hm : m < 0) (e : Nat) : m ^ e < 0 ↔ Odd e := by
  constructor
  · intro hpower
    by_contra heven
    exact not_lt_of_ge ((Nat.not_odd_iff_even.mp heven).pow_nonneg m) hpower
  · exact fun hodd => hodd.pow_neg hm

namespace Elementary

/-- Of the powers of a negative double with whole exponents, those with an odd exponent are negative and
the others are not. -/
def KeepsParity (lib : Elementary) : Prop :=
  ∀ (x y : Float) (k : Int), x.isFinite = true → y.isFinite = true → Binary64.toRat x < 0 →
    Binary64.toRat y = k → Binary64.toRat (lib.power x y) ≠ 0 →
    (Binary64.toRat (lib.power x y) < 0 ↔ Odd k)

section Signs

variable {lib : Elementary} {b v : Number} {n : Int}

theorem pow_eq_checkedInt (lib : Elementary) (m : Int) (e : Nat) :
    lib.pow (.int m) (.int e) = Number.checkedInt "pow" (m ^ e) :=
  Number.pow_ints m (Int.natCast_nonneg e)

theorem pow_eq_floatPow (lib : Elementary) (h : ¬(b.isInt = true ∧ 0 ≤ n)) :
    lib.pow b (.int n) = lib.floatPow b b.toFloat (Binary64.ofInt n) := by
  cases b with
  | float x => rfl
  | int m =>
    cases n with
    | ofNat e => exact absurd ⟨rfl, Int.natCast_nonneg e⟩ h
    | negSucc e => rfl

theorem eq_of_floatPow_eq_ok {base : Number} {x y : Float} (h : lib.floatPow base x y = .ok v) :
    v = .float (lib.power x y) := by
  unfold floatPow at h
  split at h
  · cases h
  · split at h
    · cases h
    · exact Number.checkedFloat_ok h

/-- **A power of a negative base is negative exactly if the exponent is odd and has not been rounded.** -/
theorem pow_neg_iff_odd (hlib : lib.KeepsParity) (hb : b.Valid) (hneg : b.toRat < 0)
    (hn : Number.Fits n) (h : lib.pow b (.int n) = .ok v) (hv : v.toRat ≠ 0) :
    (v.toRat < 0 ↔ Odd n ∧ (b.isInt = true ∧ 0 ≤ n ∨ n.natAbs ≤ 2 ^ 53)) ∧
      standard.pow = Number.pow := by
  refine ⟨?_, pow_standard⟩
  by_cases hints : b.isInt = true ∧ 0 ≤ n
  · rw [and_iff_left (.inl hints)]
    obtain ⟨hint, hnonneg⟩ := hints
    cases b with
    | float x => cases hint
    | int m =>
      obtain ⟨e, rfl⟩ := Int.eq_ofNat_of_zero_le hnonneg
      rw [pow_eq_checkedInt] at h
      cases Number.checkedInt_ok h
      have hparity : Odd (e : Int) ↔ Odd e := Int.odd_coe_nat e
      rw [hparity, Number.toRat, Int.cast_lt_zero]
      exact pow_neg_iff (Int.cast_lt_zero.mp hneg) e
  · obtain ⟨k, hk, hparity⟩ := Binary64.promoted_parity hn
    rw [pow_eq_floatPow lib hints] at h
    cases eq_of_floatPow_eq_ok h
    have hnegative := (Number.toRat_toFloat hb).neg.mpr hneg
    have hsign := hlib _ _ _ (Number.isFinite_toFloat hb) (Binary64.isFinite_ofInt hn) hnegative hk hv
    have hrounded : b.isInt = true ∧ 0 ≤ n ∨ n.natAbs ≤ 2 ^ 53 ↔ n.natAbs ≤ 2 ^ 53 :=
      or_iff_right hints
    rw [hrounded, ← hparity]
    exact hsign

end Signs

/-! ## The powers of -1 -/

theorem sample_power (x : Float) {y : Float} {k : Int} (hk : Binary64.toRat y = k) :
    sample.power x y = if Odd k then x else Binary64.ofWord false (Binary64.magnitude x) := by
  change (if Odd ⌊Binary64.toRat y⌋ then x else _) = _
  rw [hk, Int.floor_intCast]

theorem sample_keepsParity : sample.KeepsParity := by
  intro x y k hx _ hneg hk _
  rw [sample_power x hk]
  split
  · next hodd => exact iff_of_true hneg hodd
  · next heven =>
    rw [Binary64.toRat_ofWord (Binary64.magnitude_lt hx), if_neg nofun]
    exact iff_of_false (not_lt_of_ge (Binary64.value_nonneg _)) heven

theorem sample_pow_neg_one {n : Int} (hn : Number.Fits n) :
    sample.pow (.float (-Binary64.one)) (.int n) =
      .ok (.float (if Odd n ∧ n.natAbs ≤ 2 ^ 53 then -Binary64.one else Binary64.one)) := by
  obtain ⟨k, hk, hparity⟩ := Binary64.promoted_parity hn
  have hfinite := Binary64.isFinite_neg_one
  have hzero : ¬(-Binary64.one == Binary64.zero) = true := by
    rw [Binary64.beq_zero_iff hfinite, Binary64.toRat_neg_one]
    decide
  have hwhole : Binary64.isIntegral (Binary64.ofInt n) = true :=
    (Binary64.isIntegral_iff (Binary64.isFinite_ofInt hn)).mpr ⟨k, hk⟩
  have hmagnitude : Binary64.ofWord false (Binary64.magnitude (-Binary64.one)) = Binary64.one := by
    decide +kernel
  have hfloats : ¬((Number.float (-Binary64.one)).isInt = true ∧ 0 ≤ n) :=
    fun h => Bool.false_ne_true h.1
  have hroot : ¬(-Binary64.one < Binary64.zero ∧ Binary64.isIntegral (Binary64.ofInt n) = false) :=
    fun h => Bool.false_ne_true (h.2.symm.trans hwhole)
  rw [pow_eq_floatPow sample hfloats, floatPow, Number.toFloat,
    if_neg (not_and_of_not_left _ hzero), if_neg hroot]
  change Number.checkedFloat "pow" (sample.power (-Binary64.one) (Binary64.ofInt n)) = _
  simp only [sample_power _ hk, hmagnitude, ← hparity]
  split
  · exact if_pos hfinite
  · exact if_pos Binary64.isFinite_one

/-- The greatest odd exponent that is promoted to itself. -/
theorem pow_neg_iff_odd_last :
    sample.pow (.float (-Binary64.one)) (.int 9007199254740991) = .ok (.float (-Binary64.one)) ∧
      (Number.float (-Binary64.one)).toRat < 0 := by
  have hn : Number.Fits 9007199254740991 := by decide
  have hodd : Odd (9007199254740991 : Int) := by decide
  have hpow : sample.pow (.float (-Binary64.one)) (.int 9007199254740991) =
      .ok (.float (-Binary64.one)) := by
    rw [sample_pow_neg_one hn, if_pos ⟨hodd, by decide⟩]
  have hvalid : (Number.float (-Binary64.one)).Valid := Binary64.isFinite_neg_one
  have hbase : (Number.float (-Binary64.one)).toRat < 0 := by
    rw [Number.toRat, Binary64.toRat_neg_one]
    decide
  exact ⟨hpow, (pow_neg_iff_odd sample_keepsParity hvalid hbase hn hpow
    hbase.ne).1.mpr ⟨hodd, .inr (by decide)⟩⟩

/-- **An odd exponent with a positive power**: it is promoted to the even one before it, so whatever the
powers of doubles are, both exponents have the same. -/
theorem pow_odd_exponent_positive :
    sample.KeepsParity ∧ (Number.float (-Binary64.one)).Valid ∧
      (Number.float (-Binary64.one)).toRat < 0 ∧ Number.Fits 9007199254740993 ∧
      Odd (9007199254740993 : Int) ∧
      sample.pow (.float (-Binary64.one)) (.int 9007199254740993) = .ok (.float Binary64.one) ∧
      (Number.float Binary64.one).toRat = 1 ∧
      Number.pow (.float (-Binary64.one)) (.int 9007199254740993) =
        Number.pow (.float (-Binary64.one)) (.int 9007199254740992) := by
  have hn : Number.Fits 9007199254740993 := by decide
  have hpromoted : Binary64.ofInt 9007199254740993 = Binary64.ofInt 9007199254740992 := by
    decide +kernel
  refine ⟨sample_keepsParity, Binary64.isFinite_neg_one, ?_, hn, by decide, ?_,
    Binary64.toRat_one, ?_⟩
  · rw [Number.toRat, Binary64.toRat_neg_one]
    decide
  · rw [sample_pow_neg_one hn, if_neg fun h => absurd h.2 (by decide)]
  · exact congrArg (Number.floatPow (.float (-Binary64.one)) (-Binary64.one)) hpromoted

end Elementary

end Reckoner
