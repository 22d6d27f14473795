import Reckoner.Decimal

/-!
# Numbers

The values of the calculator: integers that fit in 64 bits and finite doubles. The constructor is
part of the value. It decides how an operator combines its operands and whether two numbers are
equal, and is never inferred from the numeric value.
-/

namespace Reckoner

/-- A literal's or a result's value. -/
inductive Number where
  | int (n : Int)
  | float (x : Float)
deriving Inhabited

namespace Number

/-- The least integer that fits, `-2 ^ 63`. -/
def intMin : Int := -0x8000000000000000

/-- The greatest integer that fits, `2 ^ 63 - 1`. -/
def intMax : Int := 0x7FFFFFFFFFFFFFFF

/-- The integer fits in 64 bits. -/
def Fits (n : Int) : Prop := intMin ≤ n ∧ n ≤ intMax

instance (n : Int) : Decidable (Fits n) := inferInstanceAs (Decidable (_ ∧ _))

/-- What a constructed number promises: an integer fits, a double is finite. -/
def Valid : Number → Prop
  | int n => Fits n
  | float x => x.isFinite = true

instance : DecidablePred Valid
  | int n => inferInstanceAs (Decidable (Fits n))
  | float x => inferInstanceAs (Decidable (x.isFinite = true))

/-- Equal numbers have the same constructor and the same numeric value; the two zeros among the
doubles are equal. -/
def same : Number → Number → Bool
  | int m, int n => m == n
  | float x, float y => x == y
  | _, _ => false

instance : BEq Number := ⟨same⟩

/-- Built by `int`. -/
def isInt : Number → Bool
  | int _ => true
  | float _ => false

/-- The double an operand is promoted to. -/
def toFloat : Number → Float
  | int n => Binary64.ofInt n
  | float x => x

/-- How a number is printed: the digits of an integer, the shortest form of a double. -/
def text : Number → String
  | int n => (if n < 0 then "-" else "") ++ String.ofList (Nat.toDigits 10 n.natAbs)
  | float x => Binary64.text x

/-- How a number is shown in diagnostics, its constructor included. -/
def inspect : Number → String
  | v@(int _) => "Integer(" ++ v.text ++ ")"
  | v@(float _) => "Float(" ++ v.text ++ ")"

end Number

end Reckoner
