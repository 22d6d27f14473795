import Mathlib
import Reckoner.Number

/-!
# Doubles

What the calculation relies on about doubles, from the bits up: comparisons exclude each other, a
magnitude word below that of infinity is a finite double and the other way round, a double with its
sign bit set is the negation of its magnitude, integers that fit in 64 bits are promoted to finite
doubles, and the value of a word as a fraction is read back as the word (`nearest_exact`).
-/

namespace Reckoner

namespace Binary64

open Float.Model (Format UnpackedFloat)
open Float.Model.UnpackedFloat

/-! ## Order -/

theorem compare_swap (a b : UnpackedFloat) :
    b.compare a = (a.compare b).map Ordering.swap := by
  -- Only two finite doubles of one sign are compared by more than their constructors.
  have hfields (e e' : Int) (m m' : Nat) : (compare e' e).then (compare m' m) =
      ((compare e e').then (compare m m')).swap := by
    rw [Ordering.swap_then, ← Std.OrientedOrd.eq_swap, ← Std.OrientedOrd.eq_swap]
  rcases a with (_ | _) | _ | (_ | _) | ⟨(_ | _), m, e, hm⟩ <;>
    rcases b with (_ | _) | _ | (_ | _) | ⟨(_ | _), m', e', hm'⟩ <;>
    first
    | rfl
    | exact congrArg some (hfields e e' m m')
    | exact congrArg (fun o => some o.swap) (hfields e e' m m')

theorem not_lt_of_le {x y : Float} (h : x ≤ y) : ¬y < x := by
  intro hlt
  have hle : (x.toModel.unpack.compare y.toModel.unpack).any Ordering.isLE = true :=
    of_decide_eq_true h
  have hlt : (y.toModel.unpack.compare x.toModel.unpack == some .lt) = true :=
    of_decide_eq_true hlt
  rw [compare_swap, beq_iff_eq, Option.map_eq_some_iff] at hlt
  obtain ⟨o, ho, hswap⟩ := hlt
  rw [ho] at hle
  cases o with
  | gt => cases hle
  | _ => cases hswap

/-- A finite double equals itself. -/
theorem beq_self {x : Float} (h : x.isFinite = true) : (x == x) = true := by
  have h : x.toModel.unpack.isFinite = true := h
  change (x.toModel.unpack.compare x.toModel.unpack == some .eq) = true
  cases hx : x.toModel.unpack with
  | notANumber | infinity s =>
    rw [hx] at h
    cases h
  | zero s => rfl
  | finite s m e hm => cases s <;> simp [UnpackedFloat.compare]

/-! ## Finite doubles -/

theorem isInf_of_isFinite {x : Float} (h : x.isFinite = true) : x.isInf = false := by
  have h : x.toModel.unpack.isFinite = true := h
  change x.toModel.unpack.isInf = false
  cases hx : x.toModel.unpack with
  | infinity s =>
    rw [hx] at h
    cases h
  | _ => rfl

/-- Finite are the doubles whose exponent field is not all ones. -/
theorem isFinite_unpack_iff {b : BitVec Format.binary64.numBits} :
    (unpack Format.binary64 b).isFinite = true ↔ unpackExponent b ≠ -1#11 := by
  unfold unpack
  dsimp only
  by_cases hones : unpackExponent b = -1#11
  · rw [if_pos hones]
    refine ⟨fun h => ?_, fun hne => absurd hones hne⟩
    by_cases hmantissa : unpackMantissa b = 0#52
    · rw [if_pos hmantissa] at h
      cases h
    · rw [if_neg hmantissa] at h
      cases h
  · rw [if_neg hones]
    refine ⟨fun _ => hones, fun _ => ?_⟩
    by_cases hzero : unpackExponent b = 0#11
    · rw [if_pos hzero]
      by_cases hmantissa : unpackMantissa b = 0#52
      · rw [dif_pos hmantissa]
        rfl
      · rw [dif_neg hmantissa]
        rfl
    · rw [if_neg hzero]
      rfl

/-- A finite double has no exponent beyond that of the largest. -/
theorem exponent_lt_of_unpack {b : BitVec Format.binary64.numBits} {s : Sign} {m : Nat} {e : Int}
    {hm : 0 < m} (h : unpack Format.binary64 b = .finite s m e hm) : e < 972 := by
  have hfinite : (unpack Format.binary64 b).isFinite = true := by rw [h]; rfl
  have hones := isFinite_unpack_iff.mp hfinite
  have hlt : (unpackExponent b).toNat < 2048 := (unpackExponent b).isLt
  have hne : (unpackExponent b).toNat ≠ 2047 := fun heq => hones (BitVec.eq_of_toNat_eq heq)
  have hbias : Format.binary64.exponentBias = 1023 := rfl
  unfold unpack at h
  dsimp only at h
  rw [if_neg hones, hbias] at h
  by_cases hzero : unpackExponent b = 0#11
  · rw [if_pos hzero] at h
    by_cases hmantissa : unpackMantissa b = 0#52
    · rw [dif_pos hmantissa] at h
      cases h
    · rw [dif_neg hmantissa, hzero] at h
      cases h
      decide
  · rw [if_neg hzero] at h
    cases h
    omega

/-- Doubles whose exponent is not too large stay finite when they are packed. -/
theorem isFinite_unpack_pack {f : UnpackedFloat} (h : f.isFinite = true)
    (hfits : ∀ s m e hm, f = .finite s m e hm → e < 972) :
    (unpack Format.binary64 (pack Format.binary64 f)).isFinite = true := by
  rw [isFinite_unpack_iff]
  cases f with
  | notANumber | infinity s => cases h
  | zero s =>
    change unpackExponent (packComponents Format.binary64 s 0 0) ≠ -1#11
    rw [unpackExponent_packComponents]
    decide
  | finite s m e hm =>
    have he := hfits s m e hm rfl
    have hbias : Format.binary64.exponentBias = 1023 := rfl
    obtain ⟨biased, hbiased⟩ : ∃ biased : Nat,
        biased = (e + (Format.binary64.exponentBias : Int) + (52 : Nat)).toNat := ⟨_, rfl⟩
    have hlt : biased + 1 < 2048 := by omega
    have hpack : pack Format.binary64 (.finite s m e hm) =
        if m.log2 + 1 = Format.binary64.mantissaBits then
          packComponents Format.binary64 s (BitVec.ofNat _ biased) (BitVec.ofNat _ m)
        else packComponents Format.binary64 s 0#_ (BitVec.ofNat _ m) := by
      rw [hbiased] at hlt ⊢
      exact if_neg (Nat.not_le_of_lt hlt)
    rw [hpack]
    by_cases hnormal : m.log2 + 1 = Format.binary64.mantissaBits
    · rw [if_pos hnormal, unpackExponent_packComponents]
      intro hones
      have hones := congrArg BitVec.toNat hones
      rw [BitVec.toNat_ofNat] at hones
      change biased % 2048 = 2047 at hones
      omega
    · rw [if_neg hnormal, unpackExponent_packComponents]
      decide

theorem isFinite_ofBits {u : UInt64} (h : (unpack Format.binary64 u.toBitVec).isFinite = true) :
    (Float.ofBits u).isFinite = true :=
  isFinite_unpack_pack h fun _ _ _ _ hunpack => exponent_lt_of_unpack hunpack

theorem toNat_unpackExponent (u : UInt64) :
    (@unpackExponent Format.binary64 u.toBitVec).toNat = u.toNat / hiddenBit % 2048 := by
  rw [unpackExponent, BitVec.toNat_cast, BitVec.extractLsb_toNat, Nat.shiftRight_eq_div_pow]
  rfl

theorem toNat_unpackMantissa (u : UInt64) :
    (@unpackMantissa Format.binary64 u.toBitVec).toNat = u.toNat % hiddenBit := by
  rw [unpackMantissa, BitVec.toNat_cast, BitVec.extractLsb_toNat, Nat.shiftRight_zero]
  rfl

theorem toNat_unpackSign (u : UInt64) :
    (@unpackSign Format.binary64 u.toBitVec).toNat = u.toNat / signBit := by
  rw [unpackSign, BitVec.toNat_cast, BitVec.extractLsb_toNat, Nat.shiftRight_eq_div_pow]
  have hlt := u.toNat_lt
  change u.toNat / signBit % 2 = _
  unfold signBit
  omega

/-- The encoding of a magnitude word under a sign. -/
def encoding (negative : Bool) (w : Nat) : UInt64 :=
  UInt64.ofNat (if negative then signBit + w else w)

section Encoding

variable {negative : Bool} {w : Nat} (h : w < infinityWord)

include h

theorem toNat_encoding : (encoding negative w).toNat = if negative then signBit + w else w := by
  rw [encoding, UInt64.toNat_ofNat']
  unfold infinityWord signBit at *
  split <;> omega

theorem unpack_encoding_fields :
    (@unpackExponent Format.binary64 (encoding negative w).toBitVec).toNat = w / hiddenBit ∧
      (@unpackMantissa Format.binary64 (encoding negative w).toBitVec).toNat = w % hiddenBit := by
  rw [toNat_unpackExponent, toNat_unpackMantissa, toNat_encoding h]
  unfold infinityWord signBit hiddenBit at *
  split <;> omega

theorem isFinite_unpack_encoding :
    (unpack Format.binary64 (encoding negative w).toBitVec).isFinite = true := by
  refine isFinite_unpack_iff.mpr fun hones => ?_
  have hones := congrArg BitVec.toNat hones
  rw [(unpack_encoding_fields h).1] at hones
  change w / hiddenBit = 2047 at hones
  unfold infinityWord hiddenBit at *
  omega

theorem isFinite_ofWord : (ofWord negative w).isFinite = true :=
  isFinite_ofBits (isFinite_unpack_encoding h)

end Encoding

/-! ## Doubles and their words -/

theorem toBitVec_ofBitVec (s : BitVec 1) : (Sign.ofBitVec s).toBitVec = s := by
  revert s
  decide

theorem packComponents_fields (b : BitVec Format.binary64.numBits) :
    packComponents Format.binary64 (Sign.ofBitVec (unpackSign b)) (unpackExponent b)
      (unpackMantissa b) = b := by
  rw [packComponents, toBitVec_ofBitVec]
  apply BitVec.eq_of_getLsbD_eq
  intro i hi
  simp only [unpackSign, unpackExponent, unpackMantissa, BitVec.getLsbD_append, BitVec.getLsbD_cast,
    BitVec.getLsbD_extractLsb]
  grind

theorem pack_unpack {b : BitVec Format.binary64.numBits}
    (h : (unpack Format.binary64 b).isFinite = true) :
    pack Format.binary64 (unpack Format.binary64 b) = b := by
  have hones := isFinite_unpack_iff.mp h
  have hfields := packComponents_fields b
  have hmantissa : (unpackMantissa b).toNat < 2 ^ 52 := (unpackMantissa b).isLt
  have hexponent : (unpackExponent b).toNat < 2048 := (unpackExponent b).isLt
  have hne : (unpackExponent b).toNat ≠ 2047 := fun heq => hones (BitVec.eq_of_toNat_eq heq)
  have hbias : Format.binary64.exponentBias = 1023 := rfl
  have hbits : Format.binary64.mantissaBits = 53 := rfl
  unfold unpack
  dsimp only
  rw [if_neg hones]
  by_cases hzero : unpackExponent b = 0#11
  · rw [if_pos hzero]
    by_cases hm : unpackMantissa b = 0#52
    · rw [dif_pos hm]
      rw [hzero, hm] at hfields
      exact hfields
    · rw [dif_neg hm]
      have hlog : (unpackMantissa b).toNat.log2 < 52 :=
        (Nat.log2_lt fun h0 => hm (BitVec.eq_of_toNat_eq h0)).mpr hmantissa
      rw [pack, hzero, hbias, hbits]
      dsimp only
      rw [if_neg (by decide), if_neg (by omega)]
      rw [hzero] at hfields
      rw [BitVec.ofNat_toNat, BitVec.setWidth_eq]
      exact hfields
  · rw [if_neg hzero]
    have hm : (1#1 ++ unpackMantissa b).toNat = 2 ^ 52 + (unpackMantissa b).toNat := by
      rw [BitVec.toNat_append, ← Nat.shiftLeft_add_eq_or_of_lt hmantissa]
      rfl
    have hlog : (2 ^ 52 + (unpackMantissa b).toNat).log2 = 52 :=
      (Nat.log2_eq_iff (by omega)).mpr (by omega)
    rw [pack, hbias, hbits]
    dsimp only
    rw [hm, hlog]
    rw [if_neg (by omega), if_pos rfl]
    have hbiased : ((unpackExponent b).toNat - ((1023 : Nat) + (52 : Nat)) + (1023 : Nat) +
        (52 : Nat) : Int).toNat = (unpackExponent b).toNat := by omega
    have hlow : BitVec.ofNat 52 (2 ^ 52 + (unpackMantissa b).toNat) = unpackMantissa b := by
      apply BitVec.eq_of_toNat_eq
      rw [BitVec.toNat_ofNat, Nat.add_mod_left, Nat.mod_eq_of_lt hmantissa]
    rw [hbiased, hlow, BitVec.ofNat_toNat, BitVec.setWidth_eq]
    exact hfields

theorem ofBits_toBits {x : Float} (h : x.isFinite = true) : Float.ofBits x.toBits = x := by
  rcases x with ⟨⟨bits, valid⟩⟩
  have hpack : pack Format.binary64 (unpack Format.binary64 bits.toBitVec) = bits.toBitVec :=
    pack_unpack h
  refine congrArg Float.ofModel (Float.Model.mk.injEq .. |>.mpr ?_)
  exact congrArg UInt64.ofBitVec hpack

theorem magnitude_lt {x : Float} (h : x.isFinite = true) : magnitude x < infinityWord := by
  have hne : (@unpackExponent Format.binary64 x.toBits.toBitVec).toNat ≠ 2047 :=
    fun heq => isFinite_unpack_iff.mp h (BitVec.eq_of_toNat_eq heq)
  rw [toNat_unpackExponent] at hne
  have hlt := x.toBits.toNat_lt
  simp only [magnitude, hiddenBit, infinityWord, signBit] at *
  omega

/-- A finite double is made of its sign and its magnitude word. -/
theorem ofWord_parts {x : Float} (h : x.isFinite = true) :
    ofWord (isNegative x) (magnitude x) = x := by
  have hword : (if isNegative x then signBit + magnitude x else magnitude x) = x.toBits.toNat := by
    have hlt := x.toBits.toNat_lt
    cases hsign : isNegative x with
    | false =>
      have hbelow : x.toBits.toNat < signBit := Nat.lt_of_not_le (of_decide_eq_false hsign)
      exact Nat.mod_eq_of_lt hbelow
    | true =>
      have habove : signBit ≤ x.toBits.toNat := of_decide_eq_true hsign
      change signBit + x.toBits.toNat % signBit = x.toBits.toNat
      unfold signBit at *
      omega
  rw [ofWord, hword, UInt64.ofNat_toNat, ofBits_toBits h]

theorem ofWord_magnitude {x : Float} (h : x.isFinite = true) (hsign : isNegative x = false) :
    ofWord false (magnitude x) = x := by
  rw [← hsign]
  exact ofWord_parts h

/-! ## Signs -/

theorem unpackSign_packComponents (s : Sign) (e : BitVec 11) (m : BitVec 52) :
    unpackSign (packComponents Format.binary64 s e m) = s.toBitVec := by
  apply BitVec.eq_of_getLsbD_eq
  intro i hi
  simp only [unpackSign, packComponents, BitVec.getLsbD_append, BitVec.getLsbD_cast,
    BitVec.getLsbD_extractLsb]
  grind

theorem ofBitVec_toBitVec (s : Sign) : Sign.ofBitVec s.toBitVec = s := by
  cases s <;> rfl

/-- The encoding with the other sign. -/
def flipSign (b : BitVec Format.binary64.numBits) : BitVec Format.binary64.numBits :=
  packComponents Format.binary64 (-Sign.ofBitVec (unpackSign b)) (unpackExponent b) (unpackMantissa b)

theorem unpackSign_flipSign (b : BitVec Format.binary64.numBits) :
    Sign.ofBitVec (unpackSign (flipSign b)) = -Sign.ofBitVec (unpackSign b) := by
  rw [flipSign, unpackSign_packComponents, ofBitVec_toBitVec]

theorem unpackExponent_flipSign (b : BitVec Format.binary64.numBits) :
    unpackExponent (flipSign b) = unpackExponent b :=
  unpackExponent_packComponents

theorem unpackMantissa_flipSign (b : BitVec Format.binary64.numBits) :
    unpackMantissa (flipSign b) = unpackMantissa b :=
  unpackMantissa_packComponents

theorem neg_unpack (b : BitVec Format.binary64.numBits) :
    (unpack Format.binary64 b).neg = unpack Format.binary64 (flipSign b) := by
  unfold unpack
  dsimp only
  rw [unpackSign_flipSign]
  simp only [unpackExponent_flipSign, unpackMantissa_flipSign]
  by_cases hones : unpackExponent b = -1#11
  · rw [if_pos hones, if_pos hones]
    by_cases hm : unpackMantissa b = 0#52
    · rw [if_pos hm, if_pos hm]
      rfl
    · rw [if_neg hm, if_neg hm]
      rfl
  · rw [if_neg hones, if_neg hones]
    by_cases hzero : unpackExponent b = 0#11
    · rw [if_pos hzero, if_pos hzero]
      by_cases hm : unpackMantissa b = 0#52
      · rw [dif_pos hm, dif_pos hm]
        rfl
      · rw [dif_neg hm, dif_neg hm]
        rfl
    · rw [if_neg hzero, if_neg hzero]
      rfl

theorem neg_eq (x : Float) : -x = Float.ofBits ⟨flipSign x.toBits.toBitVec⟩ := by
  change Float.ofModel (Float.Model.pack (unpack Format.binary64 x.toBits.toBitVec).neg) = _
  rw [neg_unpack]
  rfl

theorem flipSign_flipSign (b : BitVec Format.binary64.numBits) : flipSign (flipSign b) = b := by
  have hneg : ∀ s : Sign, - -s = s := by
    intro s
    cases s <;> rfl
  rw [flipSign, unpackSign_flipSign, unpackExponent_flipSign, unpackMantissa_flipSign, hneg,
    packComponents_fields]

theorem toNat_packComponents (s : Sign) (e : BitVec 11) (m : BitVec 52) :
    (packComponents Format.binary64 s e m).toNat =
      s.toBitVec.toNat * signBit + e.toNat * hiddenBit + m.toNat := by
  change (s.toBitVec ++ e ++ m).toNat = _
  rw [BitVec.toNat_append, BitVec.toNat_append, ← Nat.shiftLeft_add_eq_or_of_lt e.isLt,
    ← Nat.shiftLeft_add_eq_or_of_lt m.isLt, Nat.shiftLeft_eq, Nat.shiftLeft_eq, signBit, hiddenBit]
  omega

/-- Without the bit of the sign. -/
theorem toNat_flipSign {b : BitVec Format.binary64.numBits} (h : signBit ≤ b.toNat) :
    (flipSign b).toNat = b.toNat % signBit := by
  have hfields := congrArg BitVec.toNat (packComponents_fields b)
  rw [toNat_packComponents] at hfields
  rw [flipSign, toNat_packComponents]
  have he : (unpackExponent b).toNat < 2048 := (unpackExponent b).isLt
  have hm : (unpackMantissa b).toNat < hiddenBit := (unpackMantissa b).isLt
  generalize (unpackExponent b).toNat = e at *
  generalize (unpackMantissa b).toNat = m at *
  generalize b.toNat = n at *
  generalize Sign.ofBitVec (unpackSign b) = s at *
  have hpositive : Sign.positive.toBitVec.toNat = 0 := rfl
  have hnegative : Sign.negative.toBitVec.toNat = 1 := rfl
  have hneg : (-Sign.negative).toBitVec.toNat = 0 := rfl
  cases s with
  | positive =>
    rw [hpositive] at hfields
    exfalso
    clear hpositive hnegative hneg
    unfold signBit hiddenBit at *
    omega
  | negative =>
    rw [hnegative] at hfields
    rw [hneg]
    clear hpositive hnegative hneg
    unfold signBit hiddenBit at *
    omega

theorem toBits_ofBits {u : UInt64} (h : (unpack Format.binary64 u.toBitVec).isFinite = true) :
    (Float.ofBits u).toBits = u :=
  congrArg UInt64.ofBitVec (pack_unpack h)

/-- A double with its sign bit set is the negation of its magnitude. -/
theorem neg_ofWord_magnitude {x : Float} (h : x.isFinite = true) (hsign : isNegative x = true) :
    -ofWord false (magnitude x) = x := by
  have hsign : signBit ≤ x.toBits.toBitVec.toNat := of_decide_eq_true hsign
  have hword : ofWord false (magnitude x) = Float.ofBits ⟨flipSign x.toBits.toBitVec⟩ := by
    refine congrArg Float.ofBits (UInt64.toNat_inj.mp ?_)
    have hflip : (⟨flipSign x.toBits.toBitVec⟩ : UInt64).toNat = magnitude x := toNat_flipSign hsign
    rw [hflip, if_neg nofun, UInt64.toNat_ofNat', magnitude, signBit]
    omega
  have hfinite : (unpack Format.binary64 (flipSign x.toBits.toBitVec)).isFinite = true := by
    rw [isFinite_unpack_iff, unpackExponent_flipSign]
    exact isFinite_unpack_iff.mp h
  have hbits : (Float.ofBits ⟨flipSign x.toBits.toBitVec⟩).toBits = ⟨flipSign x.toBits.toBitVec⟩ :=
    toBits_ofBits hfinite
  rw [hword, neg_eq, hbits, flipSign_flipSign]
  exact ofBits_toBits h

/-! ## Integers as doubles -/

theorem lastPlace_one {n : Nat} (h : n ≠ 0) : lastPlace n 1 = (n.log2 : Int) - 52 := by
  have hself := Nat.log2_self_le h
  have hone : Nat.log2 1 = 0 := rfl
  unfold lastPlace
  simp only [hone, Int.natCast_zero, Int.sub_zero, Int.toNat_natCast, Int.toNat_neg_natCast,
    Nat.shiftLeft_eq, Nat.one_mul, Nat.pow_zero, Nat.mul_one, if_pos hself]
  omega

/-- An integer has at most `2 ^ 53` steps of its last place, rounding included. -/
theorem roundHalfEven_steps_le {n a b : Nat} (h : n.log2 + a = 52 + b) :
    roundHalfEven (n <<< a) (1 <<< b) ≤ 2 * hiddenBit := by
  have hlt : n * 2 ^ a < 2 ^ b * 2 ^ 53 :=
    calc n * 2 ^ a < 2 ^ (n.log2 + 1) * 2 ^ a :=
          Nat.mul_lt_mul_of_pos_right Nat.lt_log2_self (Nat.two_pow_pos a)
      _ = 2 ^ (b + 53) := by rw [← Nat.pow_add]; congr 1; omega
      _ = 2 ^ b * 2 ^ 53 := Nat.pow_add ..
  have hquotient : n * 2 ^ a / 2 ^ b < 2 ^ 53 := Nat.div_lt_of_lt_mul hlt
  rw [Nat.shiftLeft_eq, Nat.shiftLeft_eq, Nat.one_mul, hiddenBit]
  rcases roundHalfEven_eq_or (n * 2 ^ a) (2 ^ b) with hround | hround <;> rw [hround] <;> omega

theorem nearest_one_lt {n : Nat} (h : n ≤ signBit) : nearest n 1 < infinityWord := by
  unfold nearest
  split
  · decide
  · next hn =>
    rw [lastPlace_one hn]
    have hlog : n.log2 < 64 := (Nat.log2_lt hn).mpr (Nat.lt_of_le_of_lt h (by decide))
    have hsteps := @roundHalfEven_steps_le n (-((n.log2 : Int) - 52)).toNat
      ((n.log2 : Int) - 52).toNat (by omega)
    simp only [infinityWord, hiddenBit] at hsteps ⊢
    omega

theorem isFinite_ofInt {n : Int} (h : Number.Fits n) : (ofInt n).isFinite = true := by
  refine isFinite_ofWord (nearest_one_lt ?_)
  unfold Number.Fits Number.intMin Number.intMax at h
  unfold signBit
  omega

/-! ## Exact fractions -/

theorem log2_mul_two_pow {m : Nat} (hm : m ≠ 0) (a : Nat) : (m * 2 ^ a).log2 = m.log2 + a := by
  have hne : m * 2 ^ a ≠ 0 := Nat.mul_ne_zero hm (Nat.ne_of_gt (Nat.two_pow_pos a))
  rw [Nat.log2_eq_iff hne, Nat.pow_add, Nat.add_right_comm, Nat.pow_add]
  exact ⟨Nat.mul_le_mul_right _ (Nat.log2_self_le hm),
    Nat.mul_lt_mul_of_pos_right Nat.lt_log2_self (Nat.two_pow_pos a)⟩

theorem log2_mul_cases {m c : Nat} (hm : m ≠ 0) (hc : c ≠ 0) :
    (m * c).log2 = m.log2 + c.log2 ∨ (m * c).log2 = m.log2 + c.log2 + 1 := by
  have hne : m * c ≠ 0 := Nat.mul_ne_zero hm hc
  have hlow : m.log2 + c.log2 ≤ (m * c).log2 := by
    rw [Nat.le_log2 hne, Nat.pow_add]
    exact Nat.mul_le_mul (Nat.log2_self_le hm) (Nat.log2_self_le hc)
  have hhigh : (m * c).log2 < m.log2 + 1 + (c.log2 + 1) := by
    rw [Nat.log2_lt hne, Nat.pow_add]
    exact Nat.mul_lt_mul'' Nat.lt_log2_self Nat.lt_log2_self
  omega

/-- The last place around `m * 2 ^ (a - b)`, whatever the common factor. -/
theorem lastPlace_exact {m c : Nat} (hm : m ≠ 0) (hc : c ≠ 0) (a b : Nat) :
    lastPlace (m * 2 ^ a * c) (2 ^ b * c) = max ((m.log2 : Int) + a - b - 52) (-1074) := by
  have hden : (2 ^ b * c).log2 = b + c.log2 := by
    rw [Nat.mul_comm, log2_mul_two_pow hc, Nat.add_comm]
  have hnum := log2_mul_cases (Nat.mul_ne_zero hm (Nat.ne_of_gt (Nat.two_pow_pos a))) hc
  rw [log2_mul_two_pow hm] at hnum
  unfold lastPlace
  simp only [hden]
  -- The logarithms alone may be one off; the comparison of the two sides tells.
  generalize hgap : (((m * 2 ^ a * c).log2 : Int) - ((b + c.log2 : Nat) : Int)) = gap
  have hiff : (2 ^ b * c) <<< gap.toNat ≤ (m * 2 ^ a * c) <<< (-gap).toNat ↔
      gap ≤ (m.log2 : Int) + a - b := by
    have hcomm : (2 ^ b * c) <<< gap.toNat ≤ (m * 2 ^ a * c) <<< (-gap).toNat ↔
        2 ^ (b + gap.toNat) * c ≤ m * 2 ^ (a + (-gap).toNat) * c := by
      rw [Nat.shiftLeft_eq, Nat.shiftLeft_eq, Nat.pow_add, Nat.pow_add]
      ac_nf
    rw [hcomm, Nat.mul_le_mul_right_iff (Nat.pos_of_ne_zero hc),
      ← Nat.le_log2 (Nat.mul_ne_zero hm (Nat.ne_of_gt (Nat.two_pow_pos _))),
      log2_mul_two_pow hm]
    omega
  simp only [hiff]
  split <;> omega

/-- A significand has all its bits, except at the last place of all. -/
theorem exponent_eq {w : Nat} (hw : w ≠ 0) :
    max (((significand w).log2 : Int) + exponent w - 52) (-1074) = exponent w := by
  unfold significand exponent
  by_cases hlow : w < hiddenBit
  · have hlog : w.log2 < 52 := (Nat.log2_lt hw).mpr hlow
    rw [if_pos hlow, if_pos hlow]
    omega
  · have hlog : (hiddenBit + w % hiddenBit).log2 = 52 := by
      have hrest : w % hiddenBit < hiddenBit := Nat.mod_lt _ (by decide)
      unfold hiddenBit at *
      exact (Nat.log2_eq_iff (by omega)).mpr (by omega)
    rw [if_neg hlow, if_neg hlow, hlog]
    unfold hiddenBit at *
    omega

theorem significand_pos {w : Nat} (hw : 0 < w) : 0 < significand w := by
  unfold significand hiddenBit
  split <;> omega

theorem word_eq (w : Nat) : (exponent w + 1074).toNat * hiddenBit + significand w = w := by
  unfold significand exponent
  split
  · exact Nat.zero_add w
  · unfold hiddenBit at *
    omega

/-- The fraction of a word is rounded to the word, in lowest terms or not. -/
theorem nearest_exact {w c : Nat} (hw : w < infinityWord) (hc : c ≠ 0) :
    nearest (numerator w * c) (denominator w * c) = w := by
  unfold numerator denominator
  rw [Nat.shiftLeft_eq, Nat.shiftLeft_eq, Nat.one_mul]
  by_cases hzero : w = 0
  · subst hzero
    rw [show significand 0 = 0 from rfl, Nat.zero_mul, Nat.zero_mul]
    rfl
  have hm : significand w ≠ 0 := Nat.ne_of_gt (significand_pos (Nat.pos_of_ne_zero hzero))
  have hplace : lastPlace (significand w * 2 ^ (exponent w).toNat * c)
      (2 ^ (-exponent w).toNat * c) = exponent w := by
    have hexponent := exponent_eq hzero
    rw [lastPlace_exact hm hc]
    omega
  have hpos : 0 < 2 ^ (-exponent w).toNat * c * 2 ^ (exponent w).toNat :=
    Nat.mul_pos (Nat.mul_pos (Nat.two_pow_pos _) (Nat.pos_of_ne_zero hc)) (Nat.two_pow_pos _)
  -- The steps of the last place are a whole number, the significand: there is nothing to round.
  have hsteps : (significand w * 2 ^ (exponent w).toNat * c) * 2 ^ (-exponent w).toNat =
      significand w * (2 ^ (-exponent w).toNat * c * 2 ^ (exponent w).toNat) := by
    ac_rfl
  have hnum : significand w * 2 ^ (exponent w).toNat * c ≠ 0 :=
    Nat.mul_ne_zero (Nat.mul_ne_zero hm (Nat.ne_of_gt (Nat.two_pow_pos _))) hc
  unfold nearest
  rw [if_neg hnum, hplace]
  dsimp only
  rw [Nat.shiftLeft_eq, Nat.shiftLeft_eq, hsteps, roundHalfEven_mul_self _ hpos, word_eq]
  exact Nat.min_eq_right (Nat.le_of_lt hw)

end Binary64

theorem Number.isFinite_toFloat {v : Number} (h : v.Valid) : v.toFloat.isFinite = true := by
  cases v with
  | int n => exact Binary64.isFinite_ofInt h
  | float x => exact h

theorem Number.beq_self {v : Number} (h : v.Valid) : (v == v) = true := by
  cases v with
  | int n => exact (beq_self_eq_true n : (n == n) = true)
  | float x => exact Binary64.beq_self h

end Reckoner
