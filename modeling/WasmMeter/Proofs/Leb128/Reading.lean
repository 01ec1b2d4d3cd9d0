import Mathlib.Data.Nat.Bitwise
import WasmMeter.Proofs.Leb128.Forms

/-!
# Where the reading of a number stops

Whatever a reader of numbers does with its groups, a number that is cut short runs into the end of
the input (`scan_of_isPrefix`), a reader that is not given the last group knows of no other failure
(`scan_eq_error`), and no more than one byte is taken past the groups of the width
(`exists_taken_scan`).

A natural number is put together in a word of sixty-four bits, in which groups are moved by as many
bits as were read before them. `scanWords?` does so with shifts that have no answer where the amount
is the width of a word or more. It always has one, and it is that of `unsigned`
(`scanWords?_eq`). `unsigned_exact` says all of this of the reader of natural numbers.
-/

set_option autoImplicit false

namespace WasmMeter.Leb128

/-! ### Failures -/

section
variable {α : Type} {bits shift start : Nat} {step : (shift value : Nat) → UInt8 → Step α}

/-- A number that is cut short runs into the end of the input. -/
theorem scan_of_isPrefix {e p rest : Bytes} {a : α}
    (h : scan bits step shift start (e ++ rest) = .ok a rest) (hp : p <+: e) (hne : p ≠ e) :
    scan bits step shift start p = .error .unexpectedEnd [] := by
  obtain ⟨behind, rfl⟩ := hp
  have hbehind : behind ≠ [] := fun hnil ↦ hne (by rw [hnil, List.append_nil])
  clear hne
  induction p generalizing shift start with
  | nil => rfl
  | cons b later ih =>
    rw [List.cons_append, List.cons_append, scan_cons_eq_ok_iff] at h
    rcases h with ⟨next, hstep, hlater⟩ | ⟨-, hrest⟩
    · rw [scan, hstep]
      exact ih hlater
    · have hnil : later ++ behind = [] := List.append_left_eq_self.mp hrest
      exact absurd (List.append_eq_nil_iff.mp hnil).2 hbehind

/-- A reader that goes on only behind groups that announce another one fails because the number is
too large, or because there is no last group. -/
theorem scan_eq_error (hmore : ∀ shift value b next,
      step shift value b = .more next → continues b = true)
    {input rest : Bytes} {e : Error} (h : scan bits step shift start input = .error e rest) :
    e = .outOfRange bits ∨ ∀ b ∈ input, continues b = true := by
  induction input generalizing shift start with
  | nil => exact .inr nofun
  | cons b later ih =>
    rw [scan] at h
    cases hstep : step shift start b with
    | more next =>
      rw [hstep] at h
      refine (ih h).imp_right fun hlater ↦ ?_
      exact List.forall_mem_cons.mpr ⟨hmore shift start b next hstep, hlater⟩
    | done answer =>
      rw [hstep] at h
      cases h
    | outOfRange =>
      rw [hstep] at h
      cases h
      exact .inl rfl

/-- A last group is enough to know that a number that is not read is too large. -/
theorem exists_scan_eq_outOfRange (hmore : ∀ shift value b next,
      step shift value b = .more next → continues b = true)
    {input : Bytes} (hlast : ∃ b ∈ input, continues b = false)
    (hrefused : ∀ a rest, scan bits step shift start input ≠ .ok a rest) :
    ∃ rest, scan bits step shift start input = .error (.outOfRange bits) rest := by
  cases hresult : scan bits step shift start input with
  | ok a rest => exact absurd hresult (hrefused a rest)
  | error e rest =>
    rcases scan_eq_error hmore hresult with rfl | hall
    · exact ⟨rest, rfl⟩
    · obtain ⟨b, hb, hcontinues⟩ := hlast
      rw [hall b hb] at hcontinues
      cases hcontinues

/-- A reader that gives up past the width takes one byte there at most. -/
theorem exists_taken_scan
    (hwide : ∀ shift value b, bits ≤ shift → step shift value b = .outOfRange)
    (shift start : Nat) (input : Bytes) :
    ∃ taken, taken ++ Reader.rest (scan bits step shift start input) = input ∧
      7 * taken.length ≤ bits - shift + 13 := by
  induction input generalizing shift start with
  | nil => exact ⟨[], rfl, Nat.zero_le _⟩
  | cons b later ih =>
    have hsingle : 7 * [b].length ≤ bits - shift + 13 := by
      rw [List.length_singleton]
      omega
    rw [scan]
    cases hstep : step shift start b with
    | more next =>
      have hshift : shift < bits := by
        by_contra hpast
        rw [hwide shift start b (Nat.le_of_not_lt hpast)] at hstep
        cases hstep
      obtain ⟨taken, htaken, hlength⟩ := ih (shift + 7) next
      refine ⟨b :: taken, congrArg (b :: ·) htaken, ?_⟩
      rw [List.length_cons]
      omega
    | done answer => exact ⟨[b], rfl, hsingle⟩
    | outOfRange => exact ⟨[b], rfl, hsingle⟩

end

/-- A group has no room past the width, nor with bits past the width. -/
theorem Unsigned.step_eq_outOfRange {bits shift start : Nat} {b : UInt8}
    (h : bits ≤ shift ∨ 2 ^ (bits - shift) ≤ payload b) :
    Unsigned.step bits shift start b = .outOfRange := if_pos h

/-! ### Words of sixty-four bits -/

/-- The word with its bits moved up, if they are moved by less than the width of a word. -/
def shiftLeft? (w : UInt64) (amount : Nat) : Option UInt64 :=
  if amount < 64 then some (w <<< UInt64.ofNat amount) else none

/-- The word with its bits moved down, if they are moved by less than the width of a word. -/
def shiftRight? (w : UInt64) (amount : Nat) : Option UInt64 :=
  if amount < 64 then some (w >>> UInt64.ofNat amount) else none

/-- The bits of a group for which a number has no room. There are none where it has room for a whole
group, and then nothing is moved. -/
def strayBits? (group : UInt64) (room : Nat) : Option UInt64 :=
  if room < 7 then shiftRight? group room else some 0

/-- Reads groups into a word, behind groups of `shift` bits that have the value `result`. There is
no answer where bits are moved by the width of a word or more. -/
def scanWords? (bits : Nat) :
    (shift : Nat) → (result : UInt64) → Bytes → Option (EStateM.Result Error Bytes UInt64)
  | _, _, [] => some (.error .unexpectedEnd [])
  | shift, result, b :: rest =>
    if bits ≤ shift then some (.error (.outOfRange bits) rest)
    else do
      let group := (b &&& 0x7f).toUInt64
      let stray ← strayBits? group (bits - shift)
      if stray ≠ 0 then some (.error (.outOfRange bits) rest)
      else
        let moved ← shiftLeft? group shift
        if b &&& 0x80 = 0 then some (.ok (result ||| moved) rest)
        else scanWords? bits (shift + 7) (result ||| moved) rest

theorem toNat_group (b : UInt8) : (b &&& 0x7f).toUInt64.toNat = payload b := by
  rw [UInt8.toNat_toUInt64, UInt8.toNat_and]
  exact Nat.and_two_pow_sub_one_eq_mod b.toNat 7

/-- The highest bit of a byte tells whether another group follows. -/
theorem and_eq_zero_iff (b : UInt8) : b &&& 0x80 = 0 ↔ continues b = false := by
  have hb := b.toNat_lt
  have hbit : b.toNat &&& 2 ^ 7 = 0 ↔ b.toNat / 2 ^ 7 % 2 = 0 := by
    rw [Nat.and_two_pow, Nat.testBit_eq_decide_div_mod_eq]
    simp
  rw [← UInt8.toNat_inj, UInt8.toNat_and, continues, decide_eq_false_iff_not]
  exact hbit.trans (by omega)

theorem exists_strayBits? {group : UInt64} (room : Nat) (hgroup : group.toNat < 128) :
    ∃ stray, strayBits? group room = some stray ∧ (stray = 0 ↔ group.toNat < 2 ^ room) := by
  by_cases hroom : room < 7
  · refine ⟨group >>> UInt64.ofNat room, ?_, ?_⟩
    · rw [strayBits?, if_pos hroom, shiftRight?, if_pos (by omega)]
    · rw [← UInt64.toNat_inj, UInt64.toNat_shiftRight, UInt64.toNat_ofNat',
        show room % 2 ^ 64 % 64 = room by omega, Nat.shiftRight_eq_div_pow]
      exact Nat.div_eq_zero_iff_lt (Nat.two_pow_pos room)
  · have hwide : 2 ^ 7 ≤ 2 ^ room := Nat.pow_le_pow_right (by decide) (by omega)
    exact ⟨0, by rw [strayBits?, if_neg hroom], iff_of_true rfl (by omega)⟩

/-- Groups below the width leave the places of the next one free, so the word is their sum. -/
theorem exists_shiftLeft? {group result : UInt64} {bits shift : Nat} (hbits : bits ≤ 64)
    (hshift : shift < bits) (hresult : result.toNat < 2 ^ shift)
    (hgroup : group.toNat < 2 ^ (bits - shift)) :
    ∃ moved, shiftLeft? group shift = some moved ∧
      (result ||| moved).toNat = result.toNat + group.toNat * 2 ^ shift := by
  refine ⟨group <<< UInt64.ofNat shift, by rw [shiftLeft?, if_pos (by omega)], ?_⟩
  have hfits : group.toNat * 2 ^ shift < 2 ^ 64 :=
    calc
      group.toNat * 2 ^ shift < 2 ^ (bits - shift) * 2 ^ shift :=
        Nat.mul_lt_mul_of_pos_right hgroup (Nat.two_pow_pos shift)
      _ = 2 ^ bits := by rw [← pow_add, Nat.sub_add_cancel hshift.le]
      _ ≤ 2 ^ 64 := Nat.pow_le_pow_right (by decide) hbits
  rw [UInt64.toNat_or, UInt64.toNat_shiftLeft, UInt64.toNat_ofNat',
    show shift % 2 ^ 64 % 64 = shift by omega, Nat.shiftLeft_eq, Nat.mod_eq_of_lt hfits,
    Nat.or_comm, Nat.mul_comm, ← Nat.two_pow_add_eq_or_of_lt hresult, Nat.add_comm]

/-- A group for which there is no room. -/
theorem scanWords?_cons_of_outOfRange {bits shift : Nat} {result : UInt64} {b : UInt8}
    {later : Bytes} (h : bits ≤ shift ∨ 2 ^ (bits - shift) ≤ payload b) :
    scanWords? bits shift result (b :: later) = some (.error (.outOfRange bits) later) := by
  rw [scanWords?]
  by_cases hshift : bits ≤ shift
  · rw [if_pos hshift]
  · obtain ⟨stray, hstray, hfits⟩ := exists_strayBits? (bits - shift)
      ((toNat_group b).trans_lt (payload_lt b))
    have hne : stray ≠ 0 := by
      intro hzero
      rw [toNat_group] at hfits
      exact Nat.not_lt.mpr (h.resolve_left hshift) (hfits.mp hzero)
    rw [if_neg hshift]
    simp only [hstray, Option.bind_eq_bind, Option.bind_some]
    rw [if_pos hne]

/-- A group for which there is room takes its place in the word. -/
theorem exists_scanWords?_cons {bits shift : Nat} {result : UInt64} {b : UInt8}
    (hbits : bits ≤ 64) (hresult : result.toNat < 2 ^ shift) (hshift : shift < bits)
    (hroom : payload b < 2 ^ (bits - shift)) (later : Bytes) :
    ∃ next : UInt64, next.toNat = result.toNat + payload b * 2 ^ shift ∧
      scanWords? bits shift result (b :: later) =
        if continues b then scanWords? bits (shift + 7) next later else some (.ok next later) := by
  have hgroup := toNat_group b
  obtain ⟨stray, hstray, hfits⟩ := exists_strayBits? (bits - shift)
    (hgroup.trans_lt (payload_lt b))
  obtain ⟨moved, hmoved, hvalue⟩ := exists_shiftLeft? hbits hshift hresult (hgroup ▸ hroom)
  have hnone : stray = 0 := hfits.mpr (hgroup ▸ hroom)
  refine ⟨result ||| moved, by rw [hvalue, hgroup], ?_⟩
  rw [scanWords?, if_neg (Nat.not_le.mpr hshift)]
  simp only [hstray, hnone, hmoved, Option.bind_eq_bind, Option.bind_some, and_eq_zero_iff]
  cases continues b <;> rfl

/-- The word holds the number, and every shift that is made has an answer. -/
theorem scanWords?_eq {bits shift : Nat} {result : UInt64} {input : Bytes} (hbits : bits ≤ 64)
    (hresult : result.toNat < 2 ^ shift) :
    scanWords? bits shift result input =
      some ((UInt64.ofNat <$> scan bits (Unsigned.step bits) shift result.toNat) input) := by
  induction input generalizing shift result with
  | nil => rfl
  | cons b later ih =>
    rw [Reader.map_apply, scan]
    by_cases hout : bits ≤ shift ∨ 2 ^ (bits - shift) ≤ payload b
    · rw [scanWords?_cons_of_outOfRange hout, Unsigned.step_eq_outOfRange hout]
    · obtain ⟨hshift, hroom⟩ := not_or.mp hout
      rw [Nat.not_le] at hshift hroom
      obtain ⟨next, hnext, hstep⟩ := exists_scanWords?_cons hbits hresult hshift hroom later
      have hbound : next.toNat < 2 ^ (shift + 7) := by
        have hplace := Nat.mul_le_mul_right (2 ^ shift) (payload_lt b)
        rw [Nat.succ_mul] at hplace
        rw [hnext, pow_add]
        omega
      rw [hstep]
      cases hcontinues : continues b with
      | false =>
        rw [Unsigned.step_eq_done_iff.mpr ⟨hshift, hroom, hcontinues, rfl⟩, ← hnext]
        simp
      | true =>
        rw [Unsigned.step_eq_more_iff.mpr ⟨hshift, hroom, hcontinues, rfl⟩, ← hnext,
          if_pos rfl, ih hbound, Reader.map_apply]

/-! ### Reading -/

/-- A natural number is read from a complete row of groups that is not too long and has a value in
range, and from nothing else. If there is no such row in front, then the number is too large, or the
input ends while more groups are announced; a row that is cut short always ends like that. No more
than one byte is taken past the longest row, and the value is had with words of sixty-four bits
whose shifts are all smaller than that. -/
theorem unsigned_exact (width : Width) (input : Bytes) :
    (∀ n rest, unsigned width input = .ok n rest ↔
      ∃ e, input = e ++ rest ∧ Groups e ∧ e.length ≤ width.maxGroups ∧ value e = n ∧
        n < 2 ^ width.bits) ∧
    ((∃ b ∈ input, continues b = false) → (∀ n rest, unsigned width input ≠ .ok n rest) →
      ∃ rest, unsigned width input = .error (.outOfRange width.bits) rest) ∧
    (∀ e n, unsigned width e = .ok n [] → input <+: e → input ≠ e →
      unsigned width input = .error .unexpectedEnd []) ∧
    (∃ taken, taken ++ Reader.rest (unsigned width input) = input ∧
      taken.length ≤ width.maxGroups + 1) ∧
    scanWords? width.bits 0 0 input = some ((UInt64.ofNat <$> unsigned width) input) := by
  refine ⟨fun n rest ↦ ?_, fun hlast hrefused ↦ ?_, fun e n he hp hne ↦ ?_, ?_, ?_⟩
  · rw [unsigned_eq_ok_iff]
    constructor
    · rintro ⟨e, he, rfl⟩
      exact ⟨e, rfl, he⟩
    · rintro ⟨e, rfl, he⟩
      exact ⟨e, he, rfl⟩
  · exact exists_scan_eq_outOfRange
      (fun _ _ _ _ hmore ↦ (Unsigned.step_eq_more_iff.mp hmore).2.2.1) hlast hrefused
  · rw [unsigned, ← List.append_nil e] at he
    exact scan_of_isPrefix he hp hne
  · have hwide (shift value : Nat) (b : UInt8) (h : width.bits ≤ shift) :
        Unsigned.step width.bits shift value b = .outOfRange :=
      Unsigned.step_eq_outOfRange (.inl h)
    obtain ⟨taken, htaken, hlength⟩ := exists_taken_scan hwide 0 0 input
    refine ⟨taken, htaken, ?_⟩
    rw [Width.maxGroups]
    omega
  · exact scanWords?_eq width.le (by decide)

/-- A row whose fifth group is too large for thirty-two bits. -/
def tooLargeRow : Bytes := [0xff, 0xff, 0xff, 0xff, 0x1f, 0x00]

/-- A row that pads a number to the longest form of thirty-two bits. -/
def longestRow : Bytes := [0xe5, 0x8e, 0xa6, 0x80, 0x00]

theorem unsigned_exact_rows :
    (∃ b ∈ tooLargeRow, continues b = false) ∧
    (∀ n rest, unsigned .w32 tooLargeRow ≠ .ok n rest) ∧
    (∃ rest, unsigned .w32 tooLargeRow = .error (.outOfRange 32) rest) ∧
    unsigned .w32 longestRow = .ok 624485 [] ∧
    unsigned .w32 (longestRow.take 4) = .error .unexpectedEnd [] := by
  have hlast : ∃ b ∈ tooLargeRow, continues b = false := ⟨0x1f, by decide, by decide⟩
  have hrefused (n : Nat) (rest : Bytes) : unsigned .w32 tooLargeRow ≠ .ok n rest := nofun
  have hlongest : unsigned .w32 longestRow = .ok 624485 [] := rfl
  refine ⟨hlast, hrefused, ?_, hlongest, ?_⟩
  · exact (unsigned_exact .w32 tooLargeRow).2.1 hlast hrefused
  · exact (unsigned_exact .w32 (longestRow.take 4)).2.2.1 longestRow 624485 hlongest
      (List.take_prefix 4 longestRow) (by decide)

end WasmMeter.Leb128
