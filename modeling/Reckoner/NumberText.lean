import Reckoner.Literal
import Reckoner.Text.Blank
import Reckoner.Text.Digits

/-!
# Numbers written freely

Configuration values write numbers with more freedom than expressions do: blanks around them, a
sign, single underscores between digits, the decimal digits of any script, and for doubles an
exponent, `inf` or `nan`. Beyond ASCII all blanks count, within it only the usual six.
-/

namespace Reckoner

namespace Binary64

/-- The double nearest to `coefficient * 10 ^ exponent` under a sign. Exponents that leave no doubt
about the result are not computed with. -/
def ofDecimal (negative : Bool) (coefficient : Nat) (exponent : Int) : Float :=
  let lead := exponent + Decimal.digitCount coefficient
  if coefficient = 0 ∨ lead < -330 then ofWord negative 0
  else if 330 < lead then infinity negative
  else
    ofFraction negative (coefficient * powerOfTen exponent.toNat) (powerOfTen (-exponent).toNat)

end Binary64

namespace NumberText

/-- A character as the readers see it: blanks and decimal digits beyond ASCII become a space and
ASCII digits, and nothing else beyond ASCII can be part of a number. -/
def asciiChar (c : Char) : Char :=
  if c.toNat < 0x7F then c
  else if Text.isBlank c then ' '
  else match Text.decimalValue? c with
    | some d => Char.ofNat (0x30 + d)
    | none => '?'

/-- The blanks that may surround a number. -/
def isPadding (c : Char) : Bool := c == ' ' || (0x09 ≤ c.toNat && c.toNat ≤ 0x0D)

/-- A sign in front, and what follows it. -/
def takeSign : List Char → Bool × List Char
  | '-' :: cs => (true, cs)
  | '+' :: cs => (false, cs)
  | cs => (false, cs)

/-- Why a text is no integer. -/
inductive IntFault where
  | malformed
  /-- More digits than are converted. -/
  | tooLong (digits : Nat)
deriving DecidableEq, Repr

/-- The digits of a row of digits and underscores in which every underscore stands between two
digits. -/
def digitsOf? : List Char → Option (List Char)
  | [] => none
  | [d] => if d.isDigit then some [d] else none
  | d :: '_' :: rest => if d.isDigit then (digitsOf? rest).map (d :: ·) else none
  | d :: rest => if d.isDigit then (digitsOf? rest).map (d :: ·) else none

/-- The integer that a text writes. -/
def readInt (text : List Char) : Except IntFault Int :=
  let (negative, cs) := takeSign ((text.map asciiChar).dropWhile isPadding)
  let isRow (c : Char) : Bool := c.isDigit || c == '_'
  match digitsOf? (cs.takeWhile isRow) with
  | none => .error .malformed
  | some ds =>
    if maxDigits < ds.length then .error (.tooLong ds.length)
    else if (cs.dropWhile isRow).all isPadding then
      let n : Int := Numeral.natValue ds
      .ok (if negative then -n else n)
    else .error .malformed

/-- Removes underscores, each of which must stand between two digits; `before` is the character in
front. -/
def dropUnderscores? (before : Char) : List Char → Option (List Char)
  | [] => some []
  | '_' :: c :: rest =>
    if before.isDigit && c.isDigit then (dropUnderscores? c rest).map (c :: ·) else none
  | c :: rest => if c = '_' then none else (dropUnderscores? c rest).map (c :: ·)

/-- The exponent at the end of a number: nothing, or a mark, possibly a sign, and digits. -/
def readExponent : List Char → Option Int
  | [] => some 0
  | mark :: cs =>
    let (negative, ds) := takeSign cs
    if (mark = 'e' ∨ mark = 'E') ∧ ds ≠ [] ∧ ds.all Char.isDigit then
      let n : Int := Numeral.natValue ds
      some (if negative then -n else n)
    else none

/-- A number in positional or scientific form, without its sign. -/
def readDecimal (negative : Bool) (cs : List Char) : Option Float :=
  let whole := cs.takeWhile Char.isDigit
  let (fraction, rest) := match cs.dropWhile Char.isDigit with
    | '.' :: cs => (cs.takeWhile Char.isDigit, cs.dropWhile Char.isDigit)
    | cs => ([], cs)
  if whole = [] ∧ fraction = [] then none
  else (readExponent rest).map fun e =>
    Binary64.ofDecimal negative (Numeral.natValue (whole ++ fraction)) (e - fraction.length)

/-- The double that a text writes. -/
def readFloat (text : List Char) : Option Float := do
  let padded := (text.map asciiChar).dropWhile isPadding
  let cs ← dropUnderscores? ' ' (padded.reverse.dropWhile isPadding).reverse
  let (negative, cs) := takeSign cs
  let word := String.ofList (cs.map Char.toLower)
  if word = "inf" ∨ word = "infinity" then some (Binary64.infinity negative)
  else if word = "nan" then some Binary64.nan
  else readDecimal negative cs

end NumberText

end Reckoner
