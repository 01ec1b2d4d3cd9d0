import Mathlib.Algebra.Order.Field.Power
import Mathlib.Algebra.Order.Ring.Rat
import Mathlib.Tactic.FieldSimp
import Mathlib.Tactic.Linarith
import Mathlib.Tactic.NormNum
import Mathlib.Tactic.Positivity
import Mathlib.Tactic.Ring
import WasmMeter.Text.FloatLiteral

/-!
# The numbers of the float formats

The bits of a float stand for a rational number (`FloatFormat.value?`), unless they stand for an
infinity or for no number. A whole number is rounded to the nearest number of the format, and to
even bits if two of them are equally near (`FloatFormat.isNearest_bits`).

Between two powers of two the numbers of a format are the whole multiples of one unit
(`FloatFormat.exists_eq_mul_unit`). So what is left to show is that the multiple which is chosen is
the nearest whole number of units (`FloatFormat.isNearest_roundedUnits`), and that its bits stand
for it, also where it is the next power of two (`FloatFormat.value?_of_units`).
-/

set_option autoImplicit false

namespace WasmMeter

namespace FloatFormat

/-! ### What bits stand for -/

/-- The bits of the exponent. -/
def exponentField (format : FloatFormat) (bits : Nat) : Nat :=
  bits / 2 ^ format.fractionBits % 2 ^ format.exponentBits

/-- The significand in units of the last place: the bits behind the point, and a one in front of it
unless the number is smaller than the normal ones. -/
def significand (format : FloatFormat) (bits : Nat) : Nat :=
  if format.exponentField bits = 0 then bits % 2 ^ format.fractionBits
  else 2 ^ format.fractionBits + bits % 2 ^ format.fractionBits

/-- The number without its sign. Numbers smaller than the normal ones have the unit of the smallest
normal ones. -/
def magnitude (format : FloatFormat) (bits : Nat) : ℚ :=
  format.significand bits *
    2 ^ (format.leastExponent + ((format.exponentField bits - 1 : Nat) : Int))

/-- The number that bits of the format stand for, if it is finite. -/
def value? (format : FloatFormat) (bits : Nat) : Option ℚ :=
  if format.exponentField bits = 2 ^ format.exponentBits - 1 then none
  else if bits.testBit (format.exponentBits + format.fractionBits) then
    some (-format.magnitude bits)
  else some (format.magnitude bits)

/-- Bits stand for a number of the format that is nearest to an exact one. If another number is
equally near, the last of the bits is zero. -/
structure IsNearest (format : FloatFormat) (exact : ℚ) (bits : Nat) (v : ℚ) : Prop where
  value : format.value? bits = some v
  nearest : ∀ other w, format.value? other = some w → |v - exact| ≤ |w - exact|
  even : ∀ other w, format.value? other = some w → w ≠ v → |v - exact| = |w - exact| → bits % 2 = 0

/-- A number of the format is the nearest one to itself. -/
theorem IsNearest.eq_of_value? {format : FloatFormat} {exact v : ℚ} {bits other : Nat}
    (h : format.IsNearest exact bits v) (hother : format.value? other = some exact) :
    v = exact := by
  have hle := h.nearest other exact hother
  rw [sub_self, abs_zero] at hle
  exact sub_eq_zero.mp (abs_eq_zero.mp (le_antisymm hle (abs_nonneg _)))

theorem significand_lt (format : FloatFormat) (bits : Nat) :
    format.significand bits < 2 ^ (format.fractionBits + 1) := by
  have hfraction := Nat.mod_lt bits (Nat.two_pow_pos format.fractionBits)
  unfold significand
  split_ifs <;> omega

theorem magnitude_nonneg (format : FloatFormat) (bits : Nat) : 0 ≤ format.magnitude bits := by
  unfold magnitude
  positivity

/-- A number of the format from a power of two on is a multiple of the unit that the numbers right
behind this power have. -/
theorem exists_eq_mul_unit {format : FloatFormat} {bits e : Nat} {w : ℚ}
    (h : format.value? bits = some w) (hw : 2 ^ e ≤ w) :
    ∃ j : Int, w = j * 2 ^ ((e : Int) - format.fractionBits) := by
  have hpos : 0 < w := lt_of_lt_of_le (by positivity) hw
  have hmagnitude : w = format.magnitude bits := by
    have hnonneg := format.magnitude_nonneg bits
    unfold value? at h
    split_ifs at h <;> cases h
    · linarith
    · rfl
  rw [magnitude] at hmagnitude
  generalize format.leastExponent + ((format.exponentField bits - 1 : Nat) : Int) = place
    at hmagnitude
  have hsignificand : (format.significand bits : ℚ) < 2 ^ (format.fractionBits + 1) := by
    exact_mod_cast format.significand_lt bits
  -- The significand is too short for a smaller unit.
  have hplace : (e : Int) - format.fractionBits ≤ place := by
    have hlt : (2 : ℚ) ^ (e : Int) < 2 ^ (((format.fractionBits + 1 : Nat) : Int) + place) := by
      rw [zpow_add₀ two_ne_zero, zpow_natCast, zpow_natCast]
      exact lt_of_le_of_lt (hw.trans_eq hmagnitude) (by gcongr)
    have hexponent := (zpow_lt_zpow_iff_right₀ (one_lt_two (α := ℚ))).mp hlt
    omega
  obtain ⟨d, hd⟩ := Int.eq_ofNat_of_zero_le (Int.sub_nonneg_of_le hplace)
  refine ⟨format.significand bits * 2 ^ d, ?_⟩
  have hsplit : place = d + ((e : Int) - format.fractionBits) := by omega
  rw [hmagnitude, hsplit, zpow_add₀ two_ne_zero, zpow_natCast]
  push_cast
  ring

/-! ### Whole numbers of units -/

/-- How a quotient is rounded, by what it is above a whole number. -/
theorem nearest_cases (a : Nat) {b : Nat} (hb : 0 < b) :
    ∃ t : ℚ, (a : ℚ) / b = (a / b : Nat) + t ∧
      (0 ≤ t ∧ t < 1 / 2 ∧ nearest a b = a / b ∨
        1 / 2 < t ∧ t < 1 ∧ nearest a b = a / b + 1 ∨
        t = 1 / 2 ∧ nearest a b = a / b + a / b % 2) := by
  have hb' : (0 : ℚ) < b := by exact_mod_cast hb
  have hdiv : (a : ℚ) = b * (a / b : Nat) + (a % b : Nat) := by
    exact_mod_cast (Nat.div_add_mod a b).symm
  refine ⟨(a % b : Nat) / b, by rw [hdiv]; field_simp, ?_⟩
  simp only [nearest]
  rcases lt_trichotomy (2 * (a % b)) b with hlow | hmiddle | hhigh
  · have hlow' : 2 * ((a % b : Nat) : ℚ) < b := by exact_mod_cast hlow
    refine .inl ⟨by positivity, ?_, if_pos hlow⟩
    rw [div_lt_iff₀ hb']
    linarith
  · have hmiddle' : 2 * ((a % b : Nat) : ℚ) = b := by exact_mod_cast hmiddle
    refine .inr (.inr ⟨?_, by rw [if_neg hmiddle.not_lt, if_neg hmiddle.not_gt]⟩)
    rw [div_eq_iff hb'.ne']
    linarith
  · have hhigh' : (b : ℚ) < 2 * (a % b : Nat) := by exact_mod_cast hhigh
    have hmod : ((a % b : Nat) : ℚ) < b := by exact_mod_cast Nat.mod_lt a hb
    refine .inr (.inl ⟨?_, ?_, by rw [if_neg hhigh.le.not_gt, if_pos hhigh]⟩)
    · rw [lt_div_iff₀ hb']
      linarith
    · rwa [div_lt_one hb']

/-- The nearest whole number is at most a half away, and even if it is as much. -/
theorem abs_nearest_sub_le (a : Nat) {b : Nat} (hb : 0 < b) :
    |(nearest a b : ℚ) - a / b| ≤ 1 / 2 ∧
      (|(nearest a b : ℚ) - a / b| = 1 / 2 → nearest a b % 2 = 0) := by
  obtain ⟨t, hquotient, ⟨hnonneg, hhalf, hnearest⟩ | ⟨hhalf, hone, hnearest⟩ | ⟨rfl, hnearest⟩⟩ :=
    nearest_cases a hb
  · have habs : |(nearest a b : ℚ) - a / b| = t := by
      rw [hquotient, hnearest, sub_add_cancel_left, abs_neg, abs_of_nonneg hnonneg]
    exact ⟨by linarith, fun h ↦ by linarith⟩
  · have habs : |(nearest a b : ℚ) - a / b| = 1 - t := by
      rw [hquotient, hnearest, Nat.cast_add, add_sub_add_left_eq_sub, Nat.cast_one,
        abs_of_nonneg (by linarith)]
    exact ⟨by linarith, fun h ↦ by linarith⟩
  · have hmod : ((a / b % 2 : Nat) : ℚ) ≤ 1 := by
      exact_mod_cast Nat.le_of_lt_succ (Nat.mod_lt _ two_pos)
    have hmod' : (0 : ℚ) ≤ ((a / b % 2 : Nat) : ℚ) := Nat.cast_nonneg _
    rw [hquotient, hnearest, Nat.cast_add, add_sub_add_left_eq_sub, abs_le]
    exact ⟨⟨by linarith, by linarith⟩, fun _ ↦ by omega⟩

/-- Two whole numbers are at least one apart. -/
theorem one_le_abs_sub_add {j k : Int} (hne : j ≠ k) (x : ℚ) :
    1 ≤ |(j : ℚ) - x| + |(k : ℚ) - x| := by
  have hapart : (1 : ℚ) ≤ |(j : ℚ) - k| := by
    exact_mod_cast Int.one_le_abs (sub_ne_zero.mpr hne)
  rw [abs_sub_comm (k : ℚ) x]
  exact hapart.trans (abs_sub_le (j : ℚ) x k)

/-- No whole number is nearer than the nearest one, and this is even if another one is as near. -/
theorem isNearest_nearest (a : Nat) {b : Nat} (hb : 0 < b) (j : Int) :
    |(nearest a b : ℚ) - a / b| ≤ |(j : ℚ) - a / b| ∧
      (j ≠ nearest a b →
        |(nearest a b : ℚ) - a / b| = |(j : ℚ) - a / b| → nearest a b % 2 = 0) := by
  obtain ⟨hhalf, heven⟩ := abs_nearest_sub_le a hb
  by_cases hne : j = nearest a b
  · rw [hne]
    exact ⟨le_refl _, fun hother ↦ absurd rfl hother⟩
  · have hone := one_le_abs_sub_add hne ((a : ℚ) / b)
    rw [Int.cast_natCast] at hone
    exact ⟨by linarith, fun _ heq ↦ heven (by linarith)⟩

/-! ### Bits of whole numbers -/

theorem scaled_pos (a : Nat) {b : Nat} (hb : 0 < b) (e : Int) : 0 < (scaled a b e).2 := by
  unfold scaled
  split_ifs
  · exact hb
  · exact Nat.mul_pos hb (Nat.two_pow_pos _)

/-- Scaling multiplies a quotient by a power of two. -/
theorem scaled_div (a b : Nat) (e : Int) :
    ((scaled a b e).1 : ℚ) / (scaled a b e).2 = a / b * 2 ^ e := by
  unfold scaled
  split_ifs with he
  · obtain ⟨d, rfl⟩ := Int.eq_ofNat_of_zero_le he
    simp only [Nat.pow_eq, Int.toNat_natCast, zpow_natCast]
    push_cast
    ring
  · obtain ⟨d, hd⟩ := Int.eq_ofNat_of_zero_le (show 0 ≤ -e by omega)
    have hneg : e = -(d : Int) := by omega
    subst hneg
    simp only [Nat.pow_eq, Int.neg_neg, Int.toNat_natCast, zpow_neg, zpow_natCast]
    push_cast
    rw [div_mul_eq_div_div, div_eq_mul_inv (a / b : ℚ)]

/-- The highest bit of a whole number is that of its logarithm. -/
theorem highestBit_one {n : Nat} (hn : n ≠ 0) : highestBit n 1 = (Nat.log2 n : Int) := by
  have hlog := Nat.log2_self_le hn
  have hone : Nat.log2 1 = 0 := by decide
  simp only [highestBit, scaled, hone, Int.ofNat_zero, Int.sub_zero, Int.neg_neg,
    Int.toNat_natCast]
  by_cases hzero : Nat.log2 n = 0
  · simp [hzero, hn]
  · rw [if_neg (by omega : ¬ 0 ≤ -(Nat.log2 n : Int))]
    simp only [Nat.one_mul]
    rw [if_neg (by simpa using hlog)]

/-- The unit in which a whole number is rounded. -/
def unitOf (format : FloatFormat) (n : Nat) : ℚ := 2 ^ ((Nat.log2 n : Int) - format.fractionBits)

/-- How many of its units a whole number has, rounded. -/
def roundedUnits (format : FloatFormat) (n : Nat) : Nat :=
  let (a, b) := scaled n 1 (-((Nat.log2 n : Int) - format.fractionBits))
  nearest a b

/-- What the bits of a whole number have in front of its units. -/
def stepsOf (format : FloatFormat) (n : Nat) : Nat :=
  Nat.log2 n + 2 ^ (format.exponentBits - 1) - 2

variable {format : FloatFormat} {n : Nat}

theorem unitOf_pos (format : FloatFormat) (n : Nat) : 0 < format.unitOf n := by
  unfold unitOf
  positivity

/-- The quotient that is rounded. -/
theorem exists_roundedUnits_eq (format : FloatFormat) (n : Nat) :
    ∃ a b : Nat, 0 < b ∧ format.roundedUnits n = nearest a b ∧
      (n : ℚ) / format.unitOf n = a / b := by
  have hunits := scaled_div n 1 (-((Nat.log2 n : Int) - format.fractionBits))
  rw [Nat.cast_one, div_one, zpow_neg, ← div_eq_mul_inv] at hunits
  exact ⟨_, _, scaled_pos n Nat.one_pos _, rfl, hunits.symm⟩

/-- No whole number of units is nearer than the rounded one. -/
theorem isNearest_roundedUnits (format : FloatFormat) (n : Nat) (j : Int) :
    |(format.roundedUnits n : ℚ) - n / format.unitOf n| ≤ |(j : ℚ) - n / format.unitOf n| ∧
      (j ≠ format.roundedUnits n →
        |(format.roundedUnits n : ℚ) - n / format.unitOf n| = |(j : ℚ) - n / format.unitOf n| →
        format.roundedUnits n % 2 = 0) := by
  obtain ⟨a, b, hb, hunits, hquotient⟩ := format.exists_roundedUnits_eq n
  rw [hunits, hquotient]
  exact isNearest_nearest a hb j

/-- A power of two in the units of the numbers behind it. -/
theorem two_pow_log2_eq (format : FloatFormat) (n : Nat) :
    (2 : ℚ) ^ Nat.log2 n = 2 ^ format.fractionBits * format.unitOf n := by
  rw [unitOf, ← zpow_natCast, ← zpow_natCast, ← zpow_add₀ two_ne_zero, add_sub_cancel]

/-- The rounded units have the digits of the format, up to a carry. -/
theorem roundedUnits_bounds (hn : n ≠ 0) (format : FloatFormat) :
    2 ^ format.fractionBits ≤ format.roundedUnits n ∧
      format.roundedUnits n ≤ 2 ^ (format.fractionBits + 1) := by
  have hunit := format.unitOf_pos n
  have hlow : (2 : ℚ) ^ format.fractionBits ≤ n / format.unitOf n := by
    rw [le_div_iff₀ hunit, ← two_pow_log2_eq]
    exact_mod_cast Nat.log2_self_le hn
  have hhigh : n / format.unitOf n < (2 : ℚ) ^ (format.fractionBits + 1) := by
    rw [div_lt_iff₀ hunit, pow_succ', mul_assoc, ← two_pow_log2_eq, ← pow_succ']
    exact_mod_cast Nat.lt_log2_self
  -- Both powers are whole numbers of units, and none of them is nearer.
  have hbelow := (format.isNearest_roundedUnits n (2 ^ format.fractionBits)).1
  have habove := (format.isNearest_roundedUnits n (2 ^ (format.fractionBits + 1))).1
  push_cast at hbelow habove
  rw [abs_of_nonpos (a := (2 : ℚ) ^ format.fractionBits - _) (by linarith), abs_le] at hbelow
  rw [abs_of_nonneg (a := (2 : ℚ) ^ (format.fractionBits + 1) - _) (by linarith), abs_le] at habove
  have hlower : (2 : ℚ) ^ format.fractionBits ≤ format.roundedUnits n := by linarith [hbelow.1]
  have hupper : (format.roundedUnits n : ℚ) ≤ 2 ^ (format.fractionBits + 1) := by
    linarith [habove.2]
  exact ⟨by exact_mod_cast hlower, by exact_mod_cast hupper⟩

theorem stepsOf_eq (format : FloatFormat) (n : Nat) :
    (format.stepsOf n : Int) =
      (Nat.log2 n : Int) - format.fractionBits - format.leastExponent := by
  cases format <;> simp only [stepsOf, leastExponent, exponentBits, fractionBits, Nat.pow_eq] <;>
    omega

/-- Both formats reach far beyond the whole numbers of a hundred and twenty-seven bits. -/
theorem stepsOf_lt (hn : n < 2 ^ 127) (format : FloatFormat) :
    format.stepsOf n + 2 < 2 ^ format.exponentBits - 1 := by
  have hlog : Nat.log2 n < 127 := by
    by_cases hzero : n = 0
    · subst hzero
      decide
    · exact (Nat.log2_lt hzero).mpr hn
  cases format <;> simp only [stepsOf, exponentBits] <;> omega

/-- The bits of a whole number. -/
theorem quotientBits_one (hn : n ≠ 0) (hsmall : n < 2 ^ 127) (format : FloatFormat) :
    format.quotientBits n 1 =
      format.stepsOf n * 2 ^ format.fractionBits + format.roundedUnits n := by
  have hsteps := format.stepsOf_eq n
  have hunit : max ((Nat.log2 n : Int) - format.fractionBits) format.leastExponent =
      (Nat.log2 n : Int) - format.fractionBits := by omega
  have htoNat : ((Nat.log2 n : Int) - format.fractionBits - format.leastExponent).toNat =
      format.stepsOf n := by omega
  have hfinite : format.stepsOf n * 2 ^ format.fractionBits + format.roundedUnits n ≤
      format.infinityBits := by
    have hlt := stepsOf_lt hsmall format
    have hunits := (roundedUnits_bounds hn format).2
    calc format.stepsOf n * 2 ^ format.fractionBits + format.roundedUnits n
        ≤ (format.stepsOf n + 2) * 2 ^ format.fractionBits := by
          rw [Nat.pow_succ] at hunits
          rw [Nat.add_mul]
          omega
      _ ≤ format.infinityBits := Nat.mul_le_mul_right _ hlt.le
  rw [quotientBits, if_neg hn, highestBit_one hn, hunit]
  simp only [htoNat, Nat.pow_eq]
  exact Nat.min_eq_left hfinite

/-- What bits stand for, by the exponent and the fraction that they consist of. -/
theorem value?_of_fields {field fraction : Nat} (hfraction : fraction < 2 ^ format.fractionBits)
    (hfield : field < 2 ^ format.exponentBits - 1) (hne : field ≠ 0) :
    format.value? (field * 2 ^ format.fractionBits + fraction) =
      some (((2 ^ format.fractionBits + fraction : Nat) : ℚ) *
        2 ^ (format.leastExponent + ((field - 1 : Nat) : Int))) := by
  have hexponent : format.exponentField (field * 2 ^ format.fractionBits + fraction) = field := by
    rw [exponentField, Nat.mul_comm, Nat.mul_add_div (Nat.two_pow_pos _),
      Nat.div_eq_of_lt hfraction, Nat.add_zero, Nat.mod_eq_of_lt (by omega)]
  have hmod : (field * 2 ^ format.fractionBits + fraction) % 2 ^ format.fractionBits =
      fraction := by
    rw [Nat.mul_comm, Nat.mul_add_mod, Nat.mod_eq_of_lt hfraction]
  have hsign : (field * 2 ^ format.fractionBits + fraction).testBit
      (format.exponentBits + format.fractionBits) = false := by
    refine Nat.testBit_lt_two_pow ?_
    calc field * 2 ^ format.fractionBits + fraction
        < (field + 1) * 2 ^ format.fractionBits := by
          rw [Nat.add_one_mul]
          omega
      _ ≤ 2 ^ format.exponentBits * 2 ^ format.fractionBits := Nat.mul_le_mul_right _ (by omega)
      _ = 2 ^ (format.exponentBits + format.fractionBits) := (Nat.pow_add ..).symm
  rw [value?, hexponent, if_neg hfield.ne, hsign, if_neg Bool.false_ne_true, magnitude, significand,
    hexponent, if_neg hne, hmod]

/-- What bits stand for if they consist of steps and of units with the digits of the format. If the
units are the next power of two, this carries into the exponent. -/
theorem value?_of_units {steps units : Nat} (hlow : 2 ^ format.fractionBits ≤ units)
    (hhigh : units ≤ 2 ^ (format.fractionBits + 1))
    (hsteps : steps + 2 < 2 ^ format.exponentBits - 1) :
    format.value? (steps * 2 ^ format.fractionBits + units) =
      some ((units : ℚ) * 2 ^ (format.leastExponent + (steps : Int))) := by
  rcases hhigh.lt_or_eq with hlt | rfl
  · obtain ⟨fraction, rfl⟩ := Nat.exists_eq_add_of_le hlow
    rw [Nat.pow_succ] at hlt
    have hbits : steps * 2 ^ format.fractionBits + (2 ^ format.fractionBits + fraction) =
        (steps + 1) * 2 ^ format.fractionBits + fraction := by ring
    rw [hbits, value?_of_fields (by omega) (by omega) (by omega), Nat.add_sub_cancel]
  · have hbits : steps * 2 ^ format.fractionBits + 2 ^ (format.fractionBits + 1) =
        (steps + 2) * 2 ^ format.fractionBits + 0 := by ring
    rw [hbits, value?_of_fields (Nat.two_pow_pos _) hsteps (by omega)]
    have hexponent : format.leastExponent + ((steps + 2 - 1 : Nat) : Int) =
        format.leastExponent + (steps : Int) + 1 := by omega
    rw [hexponent, zpow_add_one₀ two_ne_zero]
    push_cast
    congr 1
    ring

/-- The bits of a whole number stand for its rounded units. -/
theorem value?_quotientBits_one (hn : n ≠ 0) (hsmall : n < 2 ^ 127) (format : FloatFormat) :
    format.value? (format.quotientBits n 1) = some (format.roundedUnits n * format.unitOf n) := by
  obtain ⟨hlow, hhigh⟩ := roundedUnits_bounds hn format
  have hplace : format.leastExponent + (format.stepsOf n : Int) =
      (Nat.log2 n : Int) - format.fractionBits := by
    have hsteps := format.stepsOf_eq n
    omega
  rw [quotientBits_one hn hsmall, value?_of_units hlow hhigh (stepsOf_lt hsmall format), hplace,
    unitOf]

/-- The digits of a number are not more than those of a power of ten behind it. -/
theorem length_digits_le {k : Nat} (hk : k ≠ 0) (h : n < 10 ^ k) :
    (Numeral.digits n).length ≤ k := by
  induction k generalizing n with
  | zero => exact absurd rfl hk
  | succ k ih =>
    rw [Numeral.digits]
    split
    · simp
    · have hne : k ≠ 0 := by
        rintro rfl
        omega
      rw [List.length_append, List.length_singleton]
      exact Nat.succ_le_succ (ih hne (by rw [Nat.pow_succ] at h; omega))

/-- A whole number is read without an exponent. -/
theorem bits_whole (hn : n ≠ 0) (hsmall : n < 2 ^ 127) (format : FloatFormat) :
    format.bits (.finite ⟨false, n, 0⟩) = format.quotientBits n 1 := by
  have hlength : (Numeral.digits n).length ≤ 39 :=
    length_digits_le (by decide) (hsmall.trans (by decide))
  have hreach : ¬(n = 0 ∨ (0 : Int) + (Numeral.digits n).length < -decimalReach) := by
    rw [decimalReach]
    omega
  have hreach' : ¬decimalReach < (0 : Int) + (Numeral.digits n).length := by
    rw [decimalReach]
    omega
  have hdecimal : format.decimalBits n 0 = format.quotientBits (n * Nat.pow 10 0) 1 := by
    rw [decimalBits, if_neg hreach, if_neg hreach']
    rfl
  rw [bits, signBit, if_neg Bool.false_ne_true, Nat.zero_add, hdecimal, Nat.pow_eq, Nat.pow_zero,
    Nat.mul_one]

/-- How far whole numbers of units are from a number. -/
theorem abs_mul_unitOf_sub (format : FloatFormat) (n : Nat) (x : ℚ) :
    |x * format.unitOf n - n| = |x - n / format.unitOf n| * format.unitOf n := by
  have hunit := format.unitOf_pos n
  rw [← abs_of_pos hunit, ← abs_mul, abs_of_pos hunit, sub_mul, div_mul_cancel₀ _ hunit.ne']

/-- No number of the format is nearer to a whole number than its rounded units, and these are even
if another one is as near. -/
theorem nearest_of_value? (hn : n ≠ 0) {other : Nat} {w : ℚ} (h : format.value? other = some w) :
    |format.roundedUnits n * format.unitOf n - n| ≤ |w - n| ∧
      (w ≠ format.roundedUnits n * format.unitOf n →
        |format.roundedUnits n * format.unitOf n - n| = |w - n| →
        format.roundedUnits n % 2 = 0) := by
  have hunit := format.unitOf_pos n
  by_cases hlow : 2 ^ Nat.log2 n ≤ w
  · obtain ⟨j, hj⟩ := exists_eq_mul_unit h hlow
    rw [← unitOf] at hj
    obtain ⟨hle, heven⟩ := format.isNearest_roundedUnits n j
    rw [hj, abs_mul_unitOf_sub, abs_mul_unitOf_sub]
    refine ⟨mul_le_mul_of_nonneg_right hle hunit.le, fun hne heq ↦ heven ?_ ?_⟩
    · rintro rfl
      exact hne (by rw [Int.cast_natCast])
    · exact mul_right_cancel₀ hunit.ne' heq
  · -- The power of two is a number of units too, and nearer than what is below it.
    have hpower := (format.isNearest_roundedUnits n (2 ^ format.fractionBits)).1
    have hscaled := mul_le_mul_of_nonneg_right hpower hunit.le
    rw [← abs_mul_unitOf_sub, ← abs_mul_unitOf_sub] at hscaled
    push_cast at hscaled
    rw [← two_pow_log2_eq] at hscaled
    have hlog : (2 : ℚ) ^ Nat.log2 n ≤ n := by exact_mod_cast Nat.log2_self_le hn
    have hlt : |format.roundedUnits n * format.unitOf n - n| < |w - n| := by
      rw [abs_of_nonpos (a := (2 : ℚ) ^ Nat.log2 n - n) (by linarith)] at hscaled
      rw [abs_of_nonpos (a := w - n) (by linarith)]
      linarith
    exact ⟨hlt.le, fun _ heq ↦ absurd heq hlt.ne⟩

/-- A whole number is rounded to the nearest number of the format. -/
theorem isNearest_bits (hn : n ≠ 0) (hsmall : n < 2 ^ 127) (format : FloatFormat) :
    format.IsNearest n (format.bits (.finite ⟨false, n, 0⟩))
      (format.roundedUnits n * format.unitOf n) := by
  rw [bits_whole hn hsmall]
  refine ⟨value?_quotientBits_one hn hsmall format, fun other w hw ↦ (nearest_of_value? hn hw).1,
    fun other w hw hne heq ↦ ?_⟩
  have heven := (nearest_of_value? hn hw).2 hne heq
  rw [quotientBits_one hn hsmall]
  cases format <;> simp only [fractionBits] <;> omega

/-- A whole number with the digits of the format is kept. -/
theorem roundedUnits_mul_unitOf (hn : n < 2 ^ (format.fractionBits + 1)) :
    format.roundedUnits n * format.unitOf n = (n : ℚ) := by
  have hlog : Nat.log2 n ≤ format.fractionBits := by
    by_cases hzero : n = 0
    · subst hzero
      exact Nat.zero_le _
    · exact Nat.le_of_lt_succ ((Nat.log2_lt hzero).mpr hn)
  obtain ⟨d, hd⟩ := Nat.exists_eq_add_of_le hlog
  have hunits : ((n * 2 ^ d : Int) : ℚ) * format.unitOf n = n := by
    have hplace : (Nat.log2 n : Int) - format.fractionBits = -(d : Int) := by omega
    rw [unitOf, hplace, zpow_neg, zpow_natCast]
    push_cast
    field_simp
  have hle := (format.isNearest_roundedUnits n (n * 2 ^ d)).1
  have hscaled := mul_le_mul_of_nonneg_right hle (format.unitOf_pos n).le
  rw [← abs_mul_unitOf_sub, ← abs_mul_unitOf_sub, hunits, sub_self, abs_zero] at hscaled
  exact sub_eq_zero.mp (abs_eq_zero.mp (le_antisymm hscaled (abs_nonneg _)))

/-- Rounding a whole number changes it by at most half a unit of the last place. -/
theorem abs_roundedUnits_mul_sub_le (hn : n ≠ 0) (format : FloatFormat) :
    |format.roundedUnits n * format.unitOf n - n| * 2 ^ (format.fractionBits + 1) ≤ n := by
  obtain ⟨a, b, hb, hunits, hquotient⟩ := format.exists_roundedUnits_eq n
  have hhalf : |(format.roundedUnits n : ℚ) - n / format.unitOf n| ≤ 1 / 2 := by
    rw [hunits, hquotient]
    exact (abs_nearest_sub_le a hb).1
  have hunit := format.unitOf_pos n
  calc |format.roundedUnits n * format.unitOf n - n| * 2 ^ (format.fractionBits + 1)
      = |(format.roundedUnits n : ℚ) - n / format.unitOf n| * 2 *
          (2 ^ format.fractionBits * format.unitOf n) := by
        rw [abs_mul_unitOf_sub]
        ring
    _ ≤ 1 * (2 ^ format.fractionBits * format.unitOf n) := by
        refine mul_le_mul_of_nonneg_right (by linarith) ?_
        positivity
    _ = 2 ^ Nat.log2 n := by rw [one_mul, ← two_pow_log2_eq]
    _ ≤ n := by exact_mod_cast Nat.log2_self_le hn

end FloatFormat

end WasmMeter
