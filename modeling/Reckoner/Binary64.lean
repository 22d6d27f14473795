/-!
# Doubles as words

A finite double is a sign and a magnitude word `w`, the lower 63 bits of its encoding. The words
count the magnitudes in ascending order: `w` stands for `significand w * 2 ^ exponent w`, and the
word after the last finite one is that of infinity. `nearest` rounds an exact fraction to a word,
a half going to the even one; reading literals, promoting integers and checking that a printed
number reads back all use it, so they cannot disagree.
-/

namespace Reckoner

/-- The quotient rounded to the nearest integer, a half going to the even neighbour. -/
def roundHalfEven (num den : Nat) : Nat :=
  let low := num / den
  let rest := num % den
  if 2 * rest < den then low
  else if den < 2 * rest then low + 1
  else low + low % 2

theorem roundHalfEven_eq_or (num den : Nat) :
    roundHalfEven num den = num / den ∨ roundHalfEven num den = num / den + 1 := by
  have := Nat.mod_two_eq_zero_or_one (num / den)
  simp only [roundHalfEven]
  split
  · exact .inl rfl
  · split
    · exact .inr rfl
    · omega

/-- A whole quotient is not changed by rounding. -/
theorem roundHalfEven_mul_self {den : Nat} (n : Nat) (h : 0 < den) :
    roundHalfEven (n * den) den = n := by
  simp [roundHalfEven, Nat.mul_div_cancel n h, h]

namespace Binary64

/-- The bit that every significand has but those of the smallest doubles, `2 ^ 52`. So many
magnitude words lie between two powers of two. -/
def hiddenBit : Nat := 0x10000000000000

/-- The bit of the sign in an encoding, `2 ^ 63`. -/
def signBit : Nat := 0x8000000000000000

/-- The magnitude word of infinity. -/
def infinityWord : Nat := 0x7FF0000000000000

/-- The integer `m` of the value `m * 2 ^ q` of a finite magnitude word. -/
def significand (w : Nat) : Nat :=
  if w < hiddenBit then w else hiddenBit + w % hiddenBit

/-- The exponent `q` of the value `m * 2 ^ q` of a finite magnitude word. -/
def exponent (w : Nat) : Int :=
  if w < hiddenBit then -1074 else (w / hiddenBit : Nat) - 1075

/-- Numerator of the value of a finite magnitude word. -/
def numerator (w : Nat) : Nat := significand w <<< (exponent w).toNat

/-- Denominator of the value of a finite magnitude word. -/
def denominator (w : Nat) : Nat := 1 <<< (-exponent w).toNat

/-- The exponent of the last place of the doubles around the fraction `num / den`: a significand
has 53 bits, except that no place is below `2 ^ (-1074)`. -/
def lastPlace (num den : Nat) : Int :=
  let gap : Int := (num.log2 : Int) - den.log2
  let top := if den <<< gap.toNat ≤ num <<< (-gap).toNat then gap else gap - 1
  max (top - 52) (-1074)

/-- The magnitude word nearest to the fraction `num / den`, a half going to the even word; the word
of infinity from half a place above the largest finite value on. -/
def nearest (num den : Nat) : Nat :=
  if num = 0 then 0 else
    let place := lastPlace num den
    let steps := roundHalfEven (num <<< (-place).toNat) (den <<< place.toNat)
    min infinityWord ((place + 1074).toNat * hiddenBit + steps)

/-- The magnitude word of a double. -/
def magnitude (x : Float) : Nat := x.toBits.toNat % signBit

/-- The sign bit of a double is set. -/
def isNegative (x : Float) : Bool := decide (signBit ≤ x.toBits.toNat)

/-- The double with the given sign and magnitude word. -/
def ofWord (negative : Bool) (w : Nat) : Float :=
  Float.ofBits (UInt64.ofNat (if negative then signBit + w else w))

/-- The double nearest to the fraction `num / den` under a sign. -/
def ofFraction (negative : Bool) (num den : Nat) : Float :=
  ofWord negative (nearest num den)

/-- The double nearest to an integer. -/
def ofInt (n : Int) : Float :=
  ofFraction (decide (n < 0)) n.natAbs 1

/-- Positive zero. -/
def zero : Float := ofWord false 0

/-- The double 1. -/
def one : Float := ofWord false 0x3FF0000000000000

/-- Infinity under a sign. -/
def infinity (negative : Bool) : Float := ofWord negative infinityWord

/-- The quiet value that is not a number. -/
def nan : Float := ofWord false 0x7FF8000000000000

/-- A finite double whose value is an integer. -/
def isIntegral (x : Float) : Bool :=
  let w := magnitude x
  w < infinityWord && numerator w % denominator w == 0

end Binary64

end Reckoner
