import Reckoner.Error

/-!
# Number literals

The numbers that can stand in an expression: ASCII digits, with a fraction or without. A literal
with a fraction is the nearest double, one without is an integer; both are refused when they are
out of range. The sign of a negative number is never part of its literal.
-/

namespace Reckoner

/-- The digits of a literal, in front of the point and after it. -/
structure Numeral where
  whole : List Char
  /-- The digits after the point, if the literal has one. -/
  fraction : Option (List Char)
deriving DecidableEq, Repr

namespace Numeral

/-- The parts of a well-formed literal: one digit or more, then possibly a point and again one
digit or more. -/
def ofChars? (cs : List Char) : Option Numeral :=
  match cs.takeWhile Char.isDigit, cs.dropWhile Char.isDigit with
  | [], _ => none
  | whole, [] => some ⟨whole, none⟩
  | whole, '.' :: d :: ds =>
    if (d :: ds).all Char.isDigit then some ⟨whole, some (d :: ds)⟩ else none
  | _, _ => none

/-- The number that a row of digits stands for. -/
def natValue (ds : List Char) : Nat := Nat.ofDigitChars 10 ds 0

/-- Digits of an integer that are not zeros in front of it. -/
def significantDigits (ds : List Char) : Nat := (ds.dropWhile (· == '0')).length

/-- No integer that fits has more significant digits. -/
def maxSignificantDigits : Nat := 19

end Numeral

namespace Number

/-- The number that the text of a literal stands for. -/
def ofLiteral (text : List Char) : Except CalcError Number :=
  let refused : Except CalcError Number := .error (.invalidNumber (String.ofList text))
  match Numeral.ofChars? text with
  | none => refused
  | some ⟨whole, some fraction⟩ =>
    let x := Binary64.ofFraction false (Numeral.natValue (whole ++ fraction))
      (powerOfTen fraction.length)
    if x.isFinite then .ok (.float x) else refused
  | some ⟨whole, none⟩ =>
    if Numeral.maxSignificantDigits < Numeral.significantDigits whole then refused
    else if maxDigits < whole.length then .error (.digitLimit whole.length)
    else
      let n : Int := Numeral.natValue whole
      if Fits n then .ok (.int n) else refused

end Number

end Reckoner
