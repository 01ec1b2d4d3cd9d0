import WasmMeter.Proofs.Leb128.Groups
import WasmMeter.Proofs.ShortestWord

/-!
# The forms of a number

A number has one form for each count of groups that is enough for it and not too many for the width
(`unsignedForms`, `signedForms`). The readers take exactly these forms (`unsigned_eq_ok_iff`,
`signed_eq_ok_iff`), and the shortest of them is the one that is written
(`isShortest_encodeUnsigned`, `isShortest_encodeSigned`).
-/

set_option autoImplicit false

namespace WasmMeter.Leb128

/-- The largest number of groups that a number of a width may take. -/
def Width.maxGroups (width : Width) : Nat := (width.bits + 6) / 7

/-- The forms of a natural number. -/
def unsignedForms (width : Width) (n : Nat) : Language UInt8 :=
  {e | Groups e ∧ e.length ≤ width.maxGroups ∧ value e = n ∧ n < 2 ^ width.bits}

/-- The forms of an integer. -/
def signedForms (width : Width) (i : Int) : Language UInt8 :=
  {e | Groups e ∧ e.length ≤ width.maxGroups ∧ signedValue e = i ∧
    -2 ^ (width.bits - 1) ≤ i ∧ i < 2 ^ (width.bits - 1)}

/-! ### Writing -/

/-- The encoding of a natural number is its shortest form. -/
theorem isShortest_encodeUnsigned {width : Width} {n : Nat} (hn : n < 2 ^ width.bits) :
    IsShortest (unsignedForms width n) (encodeUnsigned n) where
  mem := by
    have hwidth := length_encodeUnsigned_lt width.pos hn
    refine ⟨groups_encodeUnsigned n, ?_, value_encodeUnsigned n, hn⟩
    rw [Width.maxGroups]
    omega
  lt_of_ne := by
    rintro e ⟨he, -, rfl, -⟩ hne
    refine lt_of_le_of_ne (length_encodeUnsigned_value_le he) fun hlength ↦ hne ?_
    exact he.eq_of_value_eq (groups_encodeUnsigned _) hlength.symm (value_encodeUnsigned _).symm

/-- The encoding of an integer is its shortest form. -/
theorem isShortest_encodeSigned {width : Width} {i : Int} (hlower : -2 ^ (width.bits - 1) ≤ i)
    (hupper : i < 2 ^ (width.bits - 1)) : IsShortest (signedForms width i) (encodeSigned i) where
  mem := by
    have hwidth := length_encodeSigned_lt width.pos hlower hupper
    refine ⟨groups_encodeSigned i, ?_, signedValue_encodeSigned i, hlower, hupper⟩
    rw [Width.maxGroups]
    omega
  lt_of_ne := by
    rintro e ⟨he, -, rfl, -⟩ hne
    refine lt_of_le_of_ne (length_encodeSigned_signedValue_le he) fun hlength ↦ hne ?_
    exact he.eq_of_signedValue_eq (groups_encodeSigned _) hlength.symm
      (signedValue_encodeSigned _).symm

/-! ### Reading -/

theorem scan_cons_eq_ok_iff {α : Type} {bits shift start : Nat}
    {step : (shift value : Nat) → UInt8 → Step α} {b : UInt8} {later rest : Bytes} {a : α} :
    scan bits step shift start (b :: later) = .ok a rest ↔
      (∃ next, step shift start b = .more next ∧
        scan bits step (shift + 7) next later = .ok a rest) ∨
      (step shift start b = .done a ∧ later = rest) := by
  rw [scan]
  cases step shift start b <;> simp

theorem scan_nil_ne_ok {α : Type} {bits shift start : Nat}
    {step : (shift value : Nat) → UInt8 → Step α} {rest : Bytes} {a : α} :
    scan bits step shift start [] ≠ .ok a rest := by
  intro h
  cases h

theorem Unsigned.step_eq_more_iff {bits shift start next : Nat} {b : UInt8} :
    Unsigned.step bits shift start b = .more next ↔
      shift < bits ∧ payload b < 2 ^ (bits - shift) ∧ continues b = true ∧
        start + payload b * 2 ^ shift = next := by
  simp only [Unsigned.step, Nat.pow_eq]
  split_ifs with hout hcontinues
  · simp only [false_iff]
    omega
  · simp only [not_or, Nat.not_le] at hout
    simp [hout, hcontinues]
  · simp [hcontinues]

theorem Unsigned.step_eq_done_iff {bits shift start n : Nat} {b : UInt8} :
    Unsigned.step bits shift start b = .done n ↔
      shift < bits ∧ payload b < 2 ^ (bits - shift) ∧ continues b = false ∧
        start + payload b * 2 ^ shift = n := by
  simp only [Unsigned.step, Nat.pow_eq]
  split_ifs with hout hcontinues
  · simp only [false_iff]
    omega
  · simp [hcontinues]
  · simp only [not_or, Nat.not_le] at hout
    simp [hout, hcontinues]

/-- The tenth group of an integer has room for its sign alone. -/
theorem Signed.step_eq_more_iff {bits shift start next : Nat} {b : UInt8} :
    Signed.step bits shift start b = .more next ↔
      shift < bits ∧ shift ≠ 63 ∧ continues b = true ∧ start + payload b * 2 ^ shift = next := by
  simp only [Signed.step, Nat.pow_eq]
  split_ifs with hout htenth hcontinues
  · simp only [false_iff]
    omega
  · simp [htenth.1]
  · have hshift : shift ≠ 63 := by
      rintro rfl
      by_cases hzero : b = 0x00
      · simp [hzero, continues] at hcontinues
      · by_cases hsign : b = 0x7f
        · simp [hsign, continues] at hcontinues
        · exact htenth ⟨rfl, hzero, hsign⟩
    simp [Nat.lt_of_not_le hout, hshift, hcontinues]
  all_goals simp [hcontinues]

theorem Signed.step_eq_done_iff {bits shift start : Nat} {i : Int} {b : UInt8} :
    Signed.step bits shift start b = .done i ↔
      shift < bits ∧ (shift = 63 → b = 0x00 ∨ b = 0x7f) ∧ continues b = false ∧
        start + signedValue [b] * 2 ^ shift = i ∧ -2 ^ (bits - 1) ≤ i ∧ i < 2 ^ (bits - 1) := by
  have hanswer : (if signed? b = true then
      ((start + payload b * 2 ^ shift : Nat) : Int) - ((2 ^ (shift + 7) : Nat) : Int)
        else ((start + payload b * 2 ^ shift : Nat) : Int)) =
      start + signedValue [b] * 2 ^ shift := by
    simp only [signedValue]
    split_ifs
    · push_cast
      rw [pow_add]
      ring
    · push_cast
      rfl
  simp only [Signed.step, Nat.pow_eq]
  rw [hanswer]
  push_cast
  split_ifs with hout htenth hcontinues hrange
  · simp only [false_iff]
    omega
  · simp [htenth]
  · simp [hcontinues]
  · have htail : shift = 63 → b = 0x00 ∨ b = 0x7f := by
      intro hshift
      by_contra hne
      exact htenth ⟨hshift, not_or.mp hne⟩
    simp only [Step.done.injEq, Nat.lt_of_not_le hout, hcontinues, true_and]
    constructor
    · rintro rfl
      exact ⟨htail, rfl, hrange⟩
    · exact fun h ↦ h.2.1
  · simp only [false_iff]
    rintro ⟨-, -, -, rfl, hbounds⟩
    exact hrange hbounds

theorem scan_unsigned_eq_ok_iff {bits shift start n : Nat} {input rest : Bytes} :
    scan bits (Unsigned.step bits) shift start input = .ok n rest ↔
      ∃ e, Groups e ∧ e ++ rest = input ∧ shift + 7 * (e.length - 1) < bits ∧
        value e < 2 ^ (bits - shift) ∧ start + value e * 2 ^ shift = n := by
  induction input generalizing shift start with
  | nil =>
    refine iff_of_false scan_nil_ne_ok ?_
    rintro ⟨e, he, happend, -⟩
    have hpos := he.length_pos
    simp_all
  | cons b later ih =>
    rw [scan_cons_eq_ok_iff]
    simp only [Unsigned.step_eq_more_iff, Unsigned.step_eq_done_iff, ih]
    constructor
    · rintro (⟨next, ⟨hshift, hfits, hb, rfl⟩, e, he, rfl, hlength, hvalue, rfl⟩ |
        ⟨⟨hshift, hfits, hb, rfl⟩, rfl⟩)
      · have hpos := he.length_pos
        have hlow := payload_lt b
        have hsplit := two_pow_sub_eq (show shift + 7 < bits by omega)
        refine ⟨b :: e, .inner hb he, rfl, ?_, ?_, ?_⟩
        · rw [List.length_cons]
          omega
        · rw [value]
          omega
        · rw [value, pow_add]
          ring
      · exact ⟨[b], .last hb, rfl, by simpa using hshift, by simpa [value] using hfits,
          by simp [value]⟩
    · rintro ⟨e, he, happend, hlength, hvalue, rfl⟩
      cases he with
      | last hb =>
        obtain ⟨rfl, rfl⟩ := List.cons.inj happend
        exact .inr ⟨⟨by simpa using hlength, by simpa [value] using hvalue, hb,
          by simp [value]⟩, rfl⟩
      | @inner c e hb he =>
        obtain ⟨rfl, rfl⟩ := List.cons.inj happend
        have hpos := he.length_pos
        rw [List.length_cons] at hlength
        have hsplit := two_pow_sub_eq (show shift + 7 < bits by omega)
        rw [value] at hvalue
        refine .inl ⟨_, ⟨by omega, by omega, hb, rfl⟩, e, he, rfl, by omega, by omega, ?_⟩
        rw [value, pow_add]
        ring

/-- A reader of natural numbers takes one form of its answer. -/
theorem unsigned_eq_ok_iff {width : Width} {n : Nat} {input rest : Bytes} :
    unsigned width input = .ok n rest ↔ ∃ e ∈ unsignedForms width n, e ++ rest = input := by
  rw [unsigned, scan_unsigned_eq_ok_iff]
  constructor
  · rintro ⟨e, he, happend, hlength, hvalue, rfl⟩
    have hpos := he.length_pos
    refine ⟨e, ⟨he, ?_, by simp, by simpa using hvalue⟩, happend⟩
    rw [Width.maxGroups]
    omega
  · rintro ⟨e, ⟨he, hlength, rfl, hvalue⟩, happend⟩
    have hpos := he.length_pos
    rw [Width.maxGroups] at hlength
    exact ⟨e, he, happend, by omega, hvalue, by simp⟩

/-- A last tenth group whose number has sixty-four bits repeats the sign and nothing else. -/
theorem eq_zero_or_sign_of_range {b : UInt8} {start : Nat} (hb : continues b = false)
    (hstart : start < 2 ^ 63)
    (hrange : -2 ^ 63 ≤ start + signedValue [b] * 2 ^ 63 ∧
      start + signedValue [b] * 2 ^ 63 < 2 ^ 63) : b = 0x00 ∨ b = 0x7f := by
  have hlow := payload_lt b
  have hpayload : payload b = 0 ∨ payload b = 127 := by
    simp only [signedValue, signed?, decide_eq_true_eq] at hrange
    split_ifs at hrange <;> omega
  rcases hpayload with hzero | hsign
  · exact .inl (eq_of_payload_eq hzero hb)
  · exact .inr (eq_of_payload_eq hsign hb)

theorem scan_signed_eq_ok_iff {bits shift start : Nat} {i : Int} {input rest : Bytes}
    (hbits : bits ≤ 64) (hstart : start < 2 ^ shift) :
    scan bits (Signed.step bits) shift start input = .ok i rest ↔
      ∃ e, Groups e ∧ e ++ rest = input ∧ shift + 7 * (e.length - 1) < bits ∧
        start + signedValue e * 2 ^ shift = i ∧ -2 ^ (bits - 1) ≤ i ∧ i < 2 ^ (bits - 1) := by
  induction input generalizing shift start with
  | nil =>
    refine iff_of_false scan_nil_ne_ok ?_
    rintro ⟨e, he, happend, -⟩
    have hpos := he.length_pos
    simp_all
  | cons b later ih =>
    have hlow := payload_lt b
    have hnext : start + payload b * 2 ^ shift < 2 ^ (shift + 7) :=
      calc
        start + payload b * 2 ^ shift < (payload b + 1) * 2 ^ shift := by
          rw [Nat.succ_mul, Nat.add_comm]
          exact Nat.add_lt_add_left hstart _
        _ ≤ 128 * 2 ^ shift := Nat.mul_le_mul_right _ hlow
        _ = 2 ^ (shift + 7) := by
          rw [show (128 : Nat) = 2 ^ 7 from rfl, ← pow_add, Nat.add_comm]
    rw [scan_cons_eq_ok_iff]
    simp only [Signed.step_eq_more_iff, Signed.step_eq_done_iff]
    constructor
    · rintro (⟨next, ⟨hshift, -, hb, rfl⟩, hlater⟩ | ⟨⟨hshift, -, hb, hvalue, hrange⟩, rfl⟩)
      · obtain ⟨e, he, rfl, hlength, hvalue, hrange⟩ := (ih hnext).mp hlater
        have hpos := he.length_pos
        refine ⟨b :: e, .inner hb he, rfl, ?_, ?_, hrange⟩
        · rw [List.length_cons]
          omega
        · rw [← hvalue, signedValue_cons he, pow_add]
          push_cast
          ring
      · exact ⟨[b], .last hb, rfl, by simpa using hshift, hvalue, hrange⟩
    · rintro ⟨e, he, happend, hlength, hvalue, hrange⟩
      cases he with
      | last hb =>
        obtain ⟨rfl, rfl⟩ := List.cons.inj happend
        refine .inr ⟨⟨by simpa using hlength, ?_, hb, hvalue, hrange⟩, rfl⟩
        rintro rfl
        obtain rfl : bits = 64 := by simp at hlength; omega
        exact eq_zero_or_sign_of_range hb hstart (hvalue ▸ hrange)
      | @inner c e hb he =>
        obtain ⟨rfl, rfl⟩ := List.cons.inj happend
        have hpos := he.length_pos
        rw [List.length_cons] at hlength
        refine .inl ⟨_, ⟨by omega, by omega, hb, rfl⟩, (ih hnext).mpr
          ⟨e, he, rfl, by omega, ?_, hrange⟩⟩
        rw [← hvalue, signedValue_cons he, pow_add]
        push_cast
        ring

/-- A reader of integers takes one form of its answer. -/
theorem signed_eq_ok_iff {width : Width} {i : Int} {input rest : Bytes} :
    signed width input = .ok i rest ↔ ∃ e ∈ signedForms width i, e ++ rest = input := by
  rw [signed, scan_signed_eq_ok_iff width.le (by decide)]
  constructor
  · rintro ⟨e, he, happend, hlength, hvalue, hrange⟩
    have hpos := he.length_pos
    refine ⟨e, ⟨he, ?_, by simpa using hvalue, hrange⟩, happend⟩
    rw [Width.maxGroups]
    omega
  · rintro ⟨e, ⟨he, hlength, hvalue, hrange⟩, happend⟩
    have hpos := he.length_pos
    rw [Width.maxGroups] at hlength
    exact ⟨e, he, happend, by omega, by simpa using hvalue, hrange⟩

end WasmMeter.Leb128
