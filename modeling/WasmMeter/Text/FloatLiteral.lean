import WasmMeter.Text.Numeral

/-!
# Float literals

A float literal is a decimal number with an optional point and exponent, an infinity or a
not-a-number, each with an optional sign. `FloatLiteral.parse?` reads one into an exact `Decimal`,
and `FloatFormat.bits` rounds that decimal once, straight to the bits of a binary format: to the
nearest number of the format, and from the middle to the neighbour whose last bit is clear.
-/

set_option autoImplicit false

namespace WasmMeter

/-- The number `digits · 10 ^ exponent`, negated where `negative` holds. Zero has a sign too. -/
structure Decimal where
  negative : Bool
  digits : Nat
  exponent : Int
  deriving DecidableEq, Repr

/-- What a float literal denotes. -/
inductive FloatLiteral
  | finite (decimal : Decimal)
  | infinite (negative : Bool)
  | notANumber (negative : Bool)
  deriving DecidableEq, Repr

/-! ### The grammar -/

namespace FloatLiteral

/-- The exponent part of a literal, mark included; a literal without one has exponent zero. -/
def exponent? : List Char → Option Int
  | [] => some 0
  | mark :: rest =>
    if mark = 'e' ∨ mark = 'E' then
      match rest with
      | '+' :: numeral => (Numeral.natural? numeral).map Int.ofNat
      | '-' :: numeral => (Numeral.natural? numeral).map fun n ↦ -Int.ofNat n
      | numeral => (Numeral.natural? numeral).map Int.ofNat
    else none

/-- Whether a character is a decimal digit. -/
def isDigit (c : Char) : Bool := (Numeral.digitValue? c).isSome

/-- A decimal number without its sign: digits, a point and digits with at least one digit on
either side, or digits alone, then the exponent part. -/
def decimal? (negative : Bool) (literal : List Char) : Option Decimal :=
  let (whole, afterWhole) := literal.span isDigit
  let (fraction, mark) :=
    match afterWhole with
    | '.' :: rest => rest.span isDigit
    | rest => ([], rest)
  match Numeral.natural? (whole ++ fraction), exponent? mark with
  | some digits, some exponent => some ⟨negative, digits, exponent - fraction.length⟩
  | _, _ => none

/-- A float literal without its sign. The words for the values that are not finite may be written
in capitals. -/
def unsigned? (negative : Bool) (literal : List Char) : Option FloatLiteral :=
  let word := String.ofList (literal.map Char.toLower)
  if word = "inf" ∨ word = "infinity" then some (.infinite negative)
  else if word = "nan" then some (.notANumber negative)
  else (decimal? negative literal).map .finite

/-- What a float literal denotes, if the text is one. -/
def parse? : List Char → Option FloatLiteral
  | '+' :: rest => unsigned? false rest
  | '-' :: rest => unsigned? true rest
  | literal => unsigned? false literal

end FloatLiteral

/-! ### Rounding to a binary format -/

/-- The two binary interchange formats of the machine. -/
inductive FloatFormat
  | binary32
  | binary64
  deriving DecidableEq, Repr

namespace FloatFormat

/-- The bits behind the point of a normal number. -/
def fractionBits : FloatFormat → Nat
  | .binary32 => 23
  | .binary64 => 52

/-- The bits that hold the exponent. -/
def exponentBits : FloatFormat → Nat
  | .binary32 => 8
  | .binary64 => 11

/-- The bytes that a number of the format takes. -/
def width : FloatFormat → Nat
  | .binary32 => 4
  | .binary64 => 8

/-- The exponent of the smallest positive number of the format, a power of two. -/
def leastExponent (format : FloatFormat) : Int :=
  2 - (Nat.pow 2 (format.exponentBits - 1) : Int) - format.fractionBits

/-- The bits of positive infinity. -/
def infinityBits (format : FloatFormat) : Nat :=
  (Nat.pow 2 format.exponentBits - 1) * Nat.pow 2 format.fractionBits

/-- The bit that marks a negative number. -/
def signBit (format : FloatFormat) (negative : Bool) : Nat :=
  if negative then Nat.pow 2 (format.exponentBits + format.fractionBits) else 0

/-- The natural number nearest to a quotient, the even one of two that are equally near. -/
def nearest (numerator denominator : Nat) : Nat :=
  let quotient := numerator / denominator
  let twice := 2 * (numerator % denominator)
  if twice < denominator then quotient
  else if denominator < twice then quotient + 1
  else quotient + quotient % 2

/-- The quotient `a · 2 ^ e / b` as a pair of a numerator and a denominator. -/
def scaled (numerator denominator : Nat) (exponent : Int) : Nat × Nat :=
  if 0 ≤ exponent then (numerator * Nat.pow 2 exponent.toNat, denominator)
  else (numerator, denominator * Nat.pow 2 (-exponent).toNat)

/-- The exponent of the highest bit of a positive quotient: the `e` with
`2 ^ e ≤ numerator / denominator < 2 ^ (e + 1)`. -/
def highestBit (numerator denominator : Nat) : Int :=
  let guess : Int := (Nat.log2 numerator : Int) - Nat.log2 denominator
  let (a, b) := scaled numerator denominator (-guess)
  if a < b then guess - 1 else guess

/-- The bits of the number of the format that is nearest to a quotient without its sign. Steps of
the format below an exponent of the highest bit are counted in units of the last place; carrying
into the next exponent needs no case of its own, as the exponent stands above the fraction. -/
def quotientBits (format : FloatFormat) (numerator denominator : Nat) : Nat :=
  if numerator = 0 then 0
  else
    let unit := max (highestBit numerator denominator - format.fractionBits) format.leastExponent
    let (a, b) := scaled numerator denominator (-unit)
    let steps := (unit - format.leastExponent).toNat
    min (steps * Nat.pow 2 format.fractionBits + nearest a b) format.infinityBits

/-- The number with the digits of the format that is nearest to a natural number. It is one of the
format unless that is infinite there. -/
def nearestNat (format : FloatFormat) (n : Nat) : Nat :=
  let unit := Nat.pow 2 (Nat.log2 n - format.fractionBits)
  nearest n unit * unit

/-- Whether the format has only an infinity for a natural number. -/
def isInfinite (format : FloatFormat) (n : Nat) : Bool :=
  format.quotientBits n 1 == format.infinityBits

/-- Powers of ten past this one lie outside both formats. -/
def decimalReach : Int := 400

/-- The bits of the number of the format that is nearest to a decimal without its sign. -/
def decimalBits (format : FloatFormat) (digits : Nat) (exponent : Int) : Nat :=
  let order := exponent + (Numeral.digits digits).length
  if digits = 0 ∨ order < -decimalReach then 0
  else if decimalReach < order then format.infinityBits
  else if 0 ≤ exponent then format.quotientBits (digits * Nat.pow 10 exponent.toNat) 1
  else format.quotientBits digits (Nat.pow 10 (-exponent).toNat)

/-- The bits of a float literal in the format. A not-a-number has the highest bit of its fraction
set and no other. -/
def bits (format : FloatFormat) : FloatLiteral → Nat
  | .finite decimal =>
    format.signBit decimal.negative + format.decimalBits decimal.digits decimal.exponent
  | .infinite negative => format.signBit negative + format.infinityBits
  | .notANumber negative =>
    format.signBit negative + format.infinityBits + Nat.pow 2 (format.fractionBits - 1)

end FloatFormat

end WasmMeter
