import WasmMeter.Text.FloatLiteral

/-!
# The magnitude of numbers

A number that sixty-four bits do not hold as an integer is read as a `binary64`. Of its digits, as
many as sixty-four bits hold make up a whole number; that number and the power of ten that belongs
to it are both rounded to the format, and so is their product. `Magnitude.isInfinite` tells whether
the product is past the largest number of the format.

A product of rounded factors may differ from the number by more than one rounding does. Close to the
largest number of the format this decides, so the factors are multiplied as they are rounded.
-/

set_option autoImplicit false

namespace WasmMeter.Json

/-- The number `significand · 10 ^ exponent`, whose significand takes at most sixty-four bits. -/
structure Magnitude where
  significand : Nat
  exponent : Int
  deriving DecidableEq, Repr

namespace Magnitude

/-- Whether a significand with another digit behind it still takes at most sixty-four bits. -/
def fits (significand digit : Nat) : Bool := 10 * significand + digit < UInt64.size

/-- The magnitude of the digits in front of the point, behind digits that spell `significand`. From
the first digit that does not fit on, digits only raise the exponent. -/
def ofWhole : (significand : Nat) → List Nat → Magnitude
  | significand, [] => ⟨significand, 0⟩
  | significand, digit :: later =>
    if fits significand digit then ofWhole (10 * significand + digit) later
    else ⟨significand, later.length + 1⟩

/-- The magnitude with the digits behind the point. The first digit that does not fit is dropped,
and so are all behind it. -/
def withFraction : Magnitude → List Nat → Magnitude
  | magnitude, [] => magnitude
  | ⟨significand, exponent⟩, digit :: later =>
    if fits significand digit then withFraction ⟨10 * significand + digit, exponent - 1⟩ later
    else ⟨significand, exponent⟩

/-- The magnitude of a number with the digits in front of its point, those behind it, and an
exponent. -/
def ofParts (whole fraction : List Char) (exponent : Int) : Magnitude :=
  let ⟨significand, scale⟩ :=
    (ofWhole 0 (whole.filterMap Numeral.digitValue?)).withFraction
      (fraction.filterMap Numeral.digitValue?)
  ⟨significand, scale + exponent⟩

/-- The largest power of ten that the format holds. -/
def maxExponent : Nat := 308

/-- Whether the product of the rounded factors is infinite. With a negative exponent it never is, as
the significand is small. -/
def isInfinite (magnitude : Magnitude) : Bool :=
  let format := FloatFormat.binary64
  if magnitude.significand = 0 ∨ magnitude.exponent < 0 then false
  else if (maxExponent : Int) < magnitude.exponent then true
  else
    let power := format.nearestNat (Nat.pow 10 magnitude.exponent.toNat)
    format.isInfinite (format.nearestNat magnitude.significand * power)

end Magnitude

end WasmMeter.Json
