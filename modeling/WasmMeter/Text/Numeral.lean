/-!
# Decimal numerals

`Numeral.digits` writes a natural number with the fewest decimal digits and `Numeral.natural?`
reads a run of them, leading zeros allowed; `natural?_digits` says that a written number reads
back. A numeral of limited width may carry a sign: `+` in any case, `-` only where negative numbers
exist. Nothing else is allowed in one, so blanks, separators and base marks are refused.
-/

set_option autoImplicit false

namespace WasmMeter.Numeral

/-- The value of a decimal digit. Only the ten ASCII digits count. -/
def digitValue? (c : Char) : Option Nat :=
  if '0' ≤ c ∧ c ≤ '9' then some (c.toNat - 48) else none

/-- The digit with a value below ten. -/
def digitChar (value : Nat) : Char := Char.ofNat (48 + value)

theorem digitValue?_digitChar {value : Nat} (hvalue : value < 10) :
    digitValue? (digitChar value) = some value := by
  match value, hvalue with
  | 0, _ | 1, _ | 2, _ | 3, _ | 4, _ | 5, _ | 6, _ | 7, _ | 8, _ | 9, _ => rfl

/-- The number that a run of digits spells after the digits of `value`. -/
def continueValue? (value : Nat) : List Char → Option Nat
  | [] => some value
  | c :: rest => (digitValue? c).bind fun digit ↦ continueValue? (10 * value + digit) rest

/-- The number that a run of at least one digit spells. -/
def natural? : List Char → Option Nat
  | [] => none
  | c :: rest => continueValue? 0 (c :: rest)

/-- The decimal digits of a number, most significant first. -/
def digits (n : Nat) : List Char :=
  if n < 10 then [digitChar n] else digits (n / 10) ++ [digitChar (n % 10)]

theorem continueValue?_append (value : Nat) (front back : List Char) :
    continueValue? value (front ++ back) =
      (continueValue? value front).bind fun v ↦ continueValue? v back := by
  induction front generalizing value with
  | nil => rfl
  | cons c rest ih =>
    cases hdigit : digitValue? c <;> simp [continueValue?, hdigit, ih]

theorem continueValue?_digits (n : Nat) : continueValue? 0 (digits n) = some n := by
  fun_induction digits n with
  | case1 n hn => simp [continueValue?, digitValue?_digitChar hn]
  | case2 n hn ih =>
    have hdigit := digitValue?_digitChar (Nat.mod_lt n (by decide : 0 < 10))
    simp [continueValue?_append, ih, continueValue?, hdigit, Nat.div_add_mod]

theorem digits_ne_nil (n : Nat) : digits n ≠ [] := by
  rw [digits]
  split <;> simp

@[simp]
theorem natural?_digits (n : Nat) : natural? (digits n) = some n := by
  have hdigits := continueValue?_digits n
  match h : digits n with
  | [] => exact absurd h (digits_ne_nil n)
  | c :: rest => rw [h] at hdigits; exact hdigits

/-- The decimal text of an integer: a minus sign where it is negative, then its digits. -/
def ofInt (i : Int) : List Char :=
  if i < 0 then '-' :: digits i.natAbs else digits i.natAbs

/-- The decimal text of a natural number. -/
def text (n : Nat) : String := String.ofList (digits n)

/-- The number below `2 ^ bits` that a numeral spells, with or without a plus sign. -/
def unsigned? (bits : Nat) (numeral : List Char) : Option Nat :=
  let spelled :=
    match numeral with
    | '+' :: rest => natural? rest
    | _ => natural? numeral
  spelled.filter fun n ↦ n < Nat.pow 2 bits

/-- The number from `-2 ^ (bits - 1)` up to and without `2 ^ (bits - 1)` that a numeral spells,
with or without a sign. -/
def signed? (bits : Nat) (numeral : List Char) : Option Int :=
  let spelled : Option Int :=
    match numeral with
    | '+' :: rest => (natural? rest).map Int.ofNat
    | '-' :: rest => (natural? rest).map fun n ↦ -Int.ofNat n
    | _ => (natural? numeral).map Int.ofNat
  let bound : Int := Nat.pow 2 (bits - 1)
  spelled.filter fun i ↦ -bound ≤ i && i < bound

end WasmMeter.Numeral
