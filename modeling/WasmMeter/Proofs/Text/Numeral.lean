import Mathlib.Algebra.Group.Int.Defs
import Mathlib.Algebra.Group.Nat.Defs
import Mathlib.Data.List.TakeDrop
import Mathlib.Data.List.TakeWhile
import WasmMeter.Text.Blank
import WasmMeter.Text.FloatLiteral

/-!
# Numerals and float literals

A numeral of a width denotes a number in range (`Numeral.lt_of_unsigned?`,
`Numeral.range_of_signed?`), and the bits of a float literal fit in the bytes of its format
(`FloatFormat.bits_lt`).

The digits of a number are a word without blanks, and every way of reading a number gets the number
back from them: as a natural number (`Numeral.unsigned?_digits`), as an integer
(`Numeral.signed?_digits`) and as a float literal (`FloatLiteral.parse?_digits`).
-/

set_option autoImplicit false

namespace WasmMeter

/-! ### Ranges of numerals -/

namespace Numeral

theorem lt_of_unsigned? {bits n : Nat} {numeral : List Char}
    (h : unsigned? bits numeral = some n) : n < 2 ^ bits := by
  have hn := (Option.filter_eq_some_iff.mp h).2
  simpa using hn

theorem range_of_signed? {bits : Nat} {i : Int} {numeral : List Char}
    (h : signed? bits numeral = some i) : -2 ^ (bits - 1) ≤ i ∧ i < 2 ^ (bits - 1) := by
  have hi := (Option.filter_eq_some_iff.mp h).2
  simpa using hi

/-- A numeral of few bits is one of more bits that denotes a small number. -/
theorem unsigned?_eq_some_iff_of_le {few many n : Nat} (hle : few ≤ many) {numeral : List Char} :
    unsigned? few numeral = some n ↔ unsigned? many numeral = some n ∧ n < 2 ^ few := by
  have hpow : 2 ^ few ≤ 2 ^ many := Nat.pow_le_pow_right (by decide) hle
  simp only [unsigned?, Option.filter_eq_some_iff, Nat.pow_eq, decide_eq_true_eq]
  constructor
  · rintro ⟨hspelled, hn⟩
    exact ⟨⟨hspelled, by omega⟩, hn⟩
  · rintro ⟨⟨hspelled, -⟩, hn⟩
    exact ⟨hspelled, hn⟩

/-! ### Digits -/

/-- The ten digits. -/
def IsDigit (c : Char) : Prop := ∃ value < 10, c = digitChar value

theorem isDigit_of_mem_digits {n : Nat} {c : Char} (hc : c ∈ digits n) : IsDigit c := by
  fun_induction digits n with
  | case1 n hn =>
    obtain rfl := List.mem_singleton.mp hc
    exact ⟨n, hn, rfl⟩
  | case2 n hn ih =>
    rcases List.mem_append.mp hc with hfront | hlast
    · exact ih hfront
    · obtain rfl := List.mem_singleton.mp hlast
      exact ⟨n % 10, Nat.mod_lt n (by decide), rfl⟩

/-- What holds of the ten digits holds of every digit. -/
theorem IsDigit.elim {c : Char} (hc : IsDigit c) {P : Char → Prop}
    (hP : ∀ value < 10, P (digitChar value)) : P c := by
  obtain ⟨value, hvalue, rfl⟩ := hc
  exact hP value hvalue

theorem IsDigit.isBlank {c : Char} (hc : IsDigit c) : Text.isBlank c = false :=
  hc.elim (P := fun c ↦ Text.isBlank c = false) (by decide)

theorem IsDigit.ne_sign {c : Char} (hc : IsDigit c) : c ≠ '+' ∧ c ≠ '-' :=
  hc.elim (P := fun c ↦ c ≠ '+' ∧ c ≠ '-') (by decide)

theorem not_isBlank_of_mem_digits {n : Nat} {c : Char} (hc : c ∈ digits n) :
    Text.isBlank c = false := (isDigit_of_mem_digits hc).isBlank

/-- The first digit of a number, and those behind it. -/
theorem exists_digits_eq_cons (n : Nat) : ∃ c later, digits n = c :: later ∧ IsDigit c := by
  cases hdigits : digits n with
  | nil => exact absurd hdigits (digits_ne_nil n)
  | cons c later =>
    exact ⟨c, later, rfl, isDigit_of_mem_digits (by rw [hdigits]; exact List.mem_cons_self)⟩

/-- The digits of a number in range are read back as the number. -/
theorem unsigned?_digits {bits n : Nat} (hn : n < 2 ^ bits) :
    unsigned? bits (digits n) = some n := by
  obtain ⟨c, later, hdigits, hc⟩ := exists_digits_eq_cons n
  have hnatural := natural?_digits n
  have hspelled : unsigned? bits (digits n) =
      (natural? (digits n)).filter fun n ↦ n < Nat.pow 2 bits := by
    rw [hdigits]
    unfold unsigned?
    split
    · next rest hsign => exact absurd (List.cons.inj hsign).1 hc.ne_sign.1
    · rfl
  rw [hspelled, hnatural]
  simpa using hn

/-- The digits of a natural number in range are read back as an integer. -/
theorem signed?_digits {bits n : Nat} (hn : n < 2 ^ (bits - 1)) :
    signed? bits (digits n) = some (n : Int) := by
  obtain ⟨c, later, hdigits, hc⟩ := exists_digits_eq_cons n
  have hnatural := natural?_digits n
  have hspelled : signed? bits (digits n) =
      ((natural? (digits n)).map Int.ofNat).filter fun i ↦
        -(Nat.pow 2 (bits - 1) : Int) ≤ i && i < (Nat.pow 2 (bits - 1) : Int) := by
    rw [hdigits]
    unfold signed?
    split
    · next rest hsign => exact absurd (List.cons.inj hsign).1 hc.ne_sign.1
    · next rest hsign => exact absurd (List.cons.inj hsign).1 hc.ne_sign.2
    · rfl
  have hupper : (n : Int) < 2 ^ (bits - 1) := by exact_mod_cast hn
  have hlower : -2 ^ (bits - 1) ≤ (n : Int) := by omega
  rw [hspelled, hnatural]
  simp [Option.filter, hlower, hupper]

end Numeral

/-! ### Float literals -/

namespace FloatLiteral

open Numeral

theorem isDigit_of_mem_digits {n : Nat} {c : Char} (hc : c ∈ digits n) : isDigit c = true :=
  (Numeral.isDigit_of_mem_digits hc).elim (P := fun c ↦ isDigit c = true) (by decide)

/-- A number without a point and an exponent is a float literal too. -/
theorem parse?_digits (n : Nat) : parse? (digits n) = some (.finite ⟨false, n, 0⟩) := by
  obtain ⟨c, later, hdigits, hc⟩ := exists_digits_eq_cons n
  have hunsigned : parse? (digits n) = unsigned? false (digits n) := by
    rw [hdigits]
    unfold parse?
    split
    · next rest hsign => exact absurd (List.cons.inj hsign).1 hc.ne_sign.1
    · next rest hsign => exact absurd (List.cons.inj hsign).1 hc.ne_sign.2
    · rfl
  have hletter : c.toLower ≠ 'i' ∧ c.toLower ≠ 'n' :=
    hc.elim (P := fun c ↦ c.toLower ≠ 'i' ∧ c.toLower ≠ 'n') (by decide)
  have hword {first : Char} (hfirst : c.toLower ≠ first) (behind : List Char) :
      String.ofList ((digits n).map Char.toLower) ≠ String.ofList (first :: behind) := by
    rw [hdigits, List.map_cons]
    intro heq
    exact hfirst (List.cons.inj (String.ofList_injective heq)).1
  have hinf : String.ofList ((digits n).map Char.toLower) ≠ "inf" := hword hletter.1 _
  have hinfinity : String.ofList ((digits n).map Char.toLower) ≠ "infinity" := hword hletter.1 _
  have hnan : String.ofList ((digits n).map Char.toLower) ≠ "nan" := hword hletter.2 _
  have hspan : (digits n).span isDigit = (digits n, []) := by
    rw [List.span_eq_takeWhile_dropWhile,
      List.takeWhile_eq_self_iff.mpr fun _ ↦ isDigit_of_mem_digits,
      List.dropWhile_eq_nil_iff.mpr fun _ ↦ isDigit_of_mem_digits]
  have hdecimal : decimal? false (digits n) = some ⟨false, n, 0⟩ := by
    unfold decimal?
    simp only [hspan, List.append_nil, natural?_digits]
    rfl
  rw [hunsigned, unsigned?, if_neg (not_or.mpr ⟨hinf, hinfinity⟩), if_neg hnan, hdecimal]
  rfl

end FloatLiteral

/-! ### Bits of floats -/

namespace FloatFormat

theorem signBit_le (format : FloatFormat) (negative : Bool) :
    format.signBit negative ≤ 2 ^ (format.exponentBits + format.fractionBits) := by
  cases negative with
  | true => exact Nat.le_refl _
  | false => exact Nat.zero_le _

theorem quotientBits_le (format : FloatFormat) (numerator denominator : Nat) :
    format.quotientBits numerator denominator ≤ format.infinityBits := by
  unfold quotientBits
  split
  · exact Nat.zero_le _
  · exact Nat.min_le_right _ _

/-- No finite number has more bits than infinity. -/
theorem decimalBits_le (format : FloatFormat) (digits : Nat) (exponent : Int) :
    format.decimalBits digits exponent ≤ format.infinityBits := by
  simp only [decimalBits]
  split_ifs
  · exact Nat.zero_le _
  · exact Nat.le_refl _
  · exact quotientBits_le ..
  · exact quotientBits_le ..

/-- The bits of a float fit in its bytes. -/
theorem bits_lt (format : FloatFormat) (literal : FloatLiteral) :
    format.bits literal < 256 ^ format.width := by
  have hmost : 2 ^ (format.exponentBits + format.fractionBits) + format.infinityBits +
      2 ^ (format.fractionBits - 1) < 256 ^ format.width := by
    cases format <;> decide
  have hquiet := Nat.two_pow_pos (format.fractionBits - 1)
  cases literal with
  | finite decimal =>
    have hsign := format.signBit_le decimal.negative
    have hdecimal := format.decimalBits_le decimal.digits decimal.exponent
    simp only [bits]
    omega
  | infinite negative =>
    have hsign := format.signBit_le negative
    simp only [bits]
    omega
  | notANumber negative =>
    have hsign := format.signBit_le negative
    simp only [bits, Nat.pow_eq]
    omega

end FloatFormat

end WasmMeter
