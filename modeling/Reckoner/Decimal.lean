import Reckoner.Binary64

/-!
# Doubles in decimal

A finite double is written from decimal digits chosen in exact integer arithmetic. `shortest` takes
the fewest digits that read back as the same double, the nearest such number, and the even one of
two equally near; `toPrecision` takes a given number of digits of the exact value. A `Layout` says
how chosen digits are set out, so both ways of writing share one printer.
-/

namespace Reckoner

/-- The power of ten with the exponent `n`. -/
def powerOfTen (n : Nat) : Nat := Nat.pow 10 n

theorem powerOfTen_zero : powerOfTen 0 = 1 := rfl

theorem powerOfTen_succ (n : Nat) : powerOfTen (n + 1) = powerOfTen n * 10 := rfl

/-- The number `coefficient * 10 ^ exponent`. -/
structure Decimal where
  coefficient : Nat
  exponent : Int
deriving DecidableEq, Repr

namespace Decimal

/-- How many decimal digits a number has; zero has none. -/
def digitCount (n : Nat) : Nat :=
  if n = 0 then 0 else digitCount (n / 10) + 1

/-- The exponent of the first digit of the positive fraction `num / den`: the greatest `e` with
`10 ^ e ≤ num / den`. -/
def leadingExponent (num den : Nat) : Int :=
  if den ≤ num then (digitCount (num / den) : Int) - 1
  else -(digitCount ((den - 1) / num) : Int)

/-- `num / den` in units of `10 ^ place`, as a fraction. -/
def inUnits (num den : Nat) (place : Int) : Nat × Nat :=
  (num * powerOfTen (-place).toNat, den * powerOfTen place.toNat)

/-- The magnitude word nearest to `c * 10 ^ place`. -/
def wordAt (c : Nat) (place : Int) : Nat :=
  Binary64.nearest (c * powerOfTen place.toNat) (powerOfTen (-place).toNat)

/-- The multiple of `10 ^ place` next to the value of the magnitude word `w` that reads back as
`w`: the nearer of the two neighbours, the other one if only that reads back. -/
def hit? (w : Nat) (place : Int) : Option Decimal :=
  let (num, den) := inUnits (Binary64.numerator w) (Binary64.denominator w) place
  let low := num / den
  let near := roundHalfEven num den
  let far := if near = low then low + 1 else low
  if wordAt near place = w then some ⟨near, place⟩
  else if wordAt far place = w then some ⟨far, place⟩
  else none

/-- The first hit on the grids `10 ^ place`, `10 ^ (place - 1)`, …; the last grid is rounded to. -/
def search (w : Nat) : (grids : Nat) → (place : Int) → Decimal
  | 0, place =>
    let (num, den) := inUnits (Binary64.numerator w) (Binary64.denominator w) place
    ⟨roundHalfEven num den, place⟩
  | grids + 1, place => (hit? w place).getD (search w grids (place - 1))

/-- The decimal with the fewest digits that reads back as the positive finite magnitude word `w`.
On the grid of `10 ^ (-1074)` every double is exact, so a hit comes before the grids end. -/
def shortest (w : Nat) : Decimal :=
  let lead := leadingExponent (Binary64.numerator w) (Binary64.denominator w)
  search w (lead + 1075).toNat lead

/-- The value of the positive finite magnitude word `w` rounded to `digits` digits. -/
def toPrecision (digits : Nat) (w : Nat) : Decimal :=
  let num := Binary64.numerator w
  let den := Binary64.denominator w
  let place := leadingExponent num den - digits + 1
  let (num, den) := inUnits num den place
  ⟨roundHalfEven num den, place⟩

/-- How digits are set out. -/
structure Layout where
  /-- Numbers whose first digit has this decimal exponent or a greater one have an exponent mark. -/
  scientificFrom : Int
  /-- A whole number in positional form ends in `.0`. -/
  pointZero : Bool
deriving DecidableEq, Repr

/-- The default form: positional below `10 ^ 16`, and always with a point. -/
def Layout.plain : Layout := ⟨16, true⟩

/-- The form with `digits` significant digits: positional while the digits reach the point. -/
def Layout.significant (digits : Nat) : Layout := ⟨digits, false⟩

/-- The digits of a number without the zeros at its end; `0` for zero. -/
def digitChars (n : Nat) : List Char :=
  match ((Nat.toDigits 10 n).reverse.dropWhile (· == '0')).reverse with
  | [] => ['0']
  | ds => ds

/-- The exponent mark: a sign and at least two digits. -/
def exponentChars (e : Int) : List Char :=
  let digits := Nat.toDigits 10 e.natAbs
  'e' :: (if e < 0 then '-' else '+') :: (if digits.length < 2 then '0' :: digits else digits)

/-- Digits `ds`, the first of which has decimal exponent `lead`, in positional form. -/
def positionalChars (layout : Layout) (ds : List Char) (lead : Int) : List Char :=
  if lead < 0 then
    '0' :: '.' :: (List.replicate (-lead - 1).toNat '0' ++ ds)
  else
    let whole := lead.toNat + 1
    let front := ds.take whole ++ List.replicate (whole - ds.length) '0'
    match ds.drop whole with
    | [] => if layout.pointZero then front ++ ['.', '0'] else front
    | rest => front ++ '.' :: rest

/-- Digits `ds`, the first of which has decimal exponent `lead`, with an exponent mark. -/
def scientificChars (ds : List Char) (lead : Int) : List Char :=
  match ds with
  | d :: second :: rest => d :: '.' :: second :: (rest ++ exponentChars lead)
  | ds => ds ++ exponentChars lead

/-- Sets out digits: positional from `10 ^ (-4)` up to the layout's bound. -/
def layoutChars (layout : Layout) (ds : List Char) (lead : Int) : List Char :=
  if -4 ≤ lead ∧ lead < layout.scientificFrom then positionalChars layout ds lead
  else scientificChars ds lead

/-- A decimal set out in a layout. -/
def chars (layout : Layout) (d : Decimal) : List Char :=
  layoutChars layout (digitChars d.coefficient) (d.exponent + digitCount d.coefficient - 1)

end Decimal

namespace Binary64

/-- The minus sign of a double with its sign bit set, zero included. -/
def signChars (x : Float) : List Char := if isNegative x then ['-'] else []

/-- The text of a double in the default form: the fewest digits that read back. -/
def text (x : Float) : String :=
  let w := magnitude x
  if infinityWord < w then "nan"
  else String.ofList <| signChars x ++
    if w = 0 then Decimal.layoutChars .plain ['0'] 0
    else if w = infinityWord then ['i', 'n', 'f']
    else (Decimal.shortest w).chars .plain

/-- The exact value of a double has no more significant digits than this, so more of them add
nothing. -/
def digitBound : Nat := 1100

/-- The text of a finite double with `digits` significant digits, at least one, without zeros at
the end of its fraction. -/
def textWithDigits (digits : Int) (x : Float) : String :=
  let digits := max 1 digits.toNat
  let w := magnitude x
  String.ofList <| signChars x ++
    if w = 0 then Decimal.layoutChars (.significant digits) ['0'] 0
    else (Decimal.toPrecision (min digits digitBound) w).chars (.significant digits)

end Binary64

end Reckoner
