import WasmMeter.Proofs.Leb128.Reading

/-!
# Integers read into signed words

An integer is put together in a signed word of sixty-four bits. Groups are moved into their places
as those of a natural number are; the sign of the last group is then extended by a word of set bits
that is moved up behind it, and a width below sixty-four bits is checked at the end, by comparison
with two words. `scanSignedWords?` does so with shifts that have no answer where the amount is the
width of a word or more.

Nine groups leave the highest place of the word free, so up to there the word is the sum of its
groups (`exists_place`), and extending the sign takes a power of two from it
(`exists_extendSign?`). The tenth group has one place left. It fits because both bytes that are
admitted there repeat the sign (`exists_tenth`). So the word stands for the integer in two's
complement whenever there is an answer (`scanSignedWords?_eq`). `signed_exact` says what the reader
of integers accepts, and that words of sixty-four bits are enough for it.
-/

set_option autoImplicit false

namespace WasmMeter.Leb128

/-! ### The sign of groups -/

/-- The sign of the last group takes the value of the next place away. -/
theorem signedValue_eq {e : Bytes} (he : Groups e) :
    signedValue e = value e - if e.getLast?.any signed? then 128 ^ e.length else 0 := by
  induction he with
  | @last b hb =>
    show (if signed? b then (payload b : Int) - 128 else payload b) =
      (payload b + 128 * 0 : Nat) - if signed? b then 128 ^ 1 else 0
    split_ifs <;> simp
  | @inner b later hb hlater ih =>
    have hlast : (b :: later).getLast? = later.getLast? :=
      List.getLast?_cons_of_ne_nil (List.length_pos_iff.mp hlater.length_pos)
    rw [signedValue_cons hlater, ih, value, hlast, List.length_cons]
    push_cast
    split_ifs
    · ring
    · ring

/-! ### Signed words -/

/-- The signed word with its bits moved up, if they are moved by less than the width of a word. -/
def signedShiftLeft? (w : Int64) (amount : Nat) : Option Int64 :=
  if amount < 64 then some (w <<< Int64.ofNat amount) else none

/-- The word with the sign of its last group in all places from `shift` on, if there are any. -/
def extendSign? (shift : Nat) (last : UInt8) (result : Int64) : Option Int64 :=
  if shift < 64 ∧ last &&& 0x40 ≠ 0 then do
    let sign ← signedShiftLeft? (-1) shift
    some (result ||| sign)
  else some result

/-- Whether the word stands for an integer of so many bits, which all words do that have no fewer
bits. -/
def fits? (bits : Nat) (result : Int64) : Option Bool :=
  if bits < 64 then do
    let bound ← signedShiftLeft? 1 (bits - 1)
    some (-bound ≤ result ∧ result ≤ bound - 1)
  else some true

/-- Reads groups into a signed word, behind groups of `shift` bits that have the value `result`.
There is no answer where bits are moved by the width of a word or more. -/
def scanSignedWords? (bits : Nat) :
    (shift : Nat) → (result : Int64) → Bytes → Option (EStateM.Result Error Bytes Int64)
  | _, _, [] => some (.error .unexpectedEnd [])
  | shift, result, b :: rest =>
    if bits ≤ shift then some (.error (.outOfRange bits) rest)
    else if shift = 63 ∧ b ≠ 0x00 ∧ b ≠ 0x7f then some (.error (.outOfRange bits) rest)
    else do
      let moved ← signedShiftLeft? (b &&& 0x7f).toUInt64.toInt64 shift
      if b &&& 0x80 = 0 then do
        let answer ← extendSign? (shift + 7) b (result ||| moved)
        let fits ← fits? bits answer
        some (if fits then .ok answer rest else .error (.outOfRange bits) rest)
      else scanSignedWords? bits (shift + 7) (result ||| moved) rest

/-- Amounts below the width of a word are taken as they are. -/
theorem smod_amount : ∀ amount < 64,
    (BitVec.ofNat 64 amount).smod 64#64 = BitVec.ofNat 64 amount := by decide

/-- What is moved past the width of a word is gone. -/
theorem toNat_signedShiftLeft (w : Int64) {amount : Nat} (hamount : amount < 64) :
    (w <<< Int64.ofNat amount).toUInt64.toNat = w.toUInt64.toNat * 2 ^ amount % 2 ^ 64 := by
  have hsmod : (Int64.ofNat amount).toBitVec.smod 64 = BitVec.ofNat 64 amount :=
    smod_amount amount hamount
  rw [← Int64.toNat_toBitVec, Int64.toBitVec_shiftLeft, hsmod, BitVec.shiftLeft_eq',
    BitVec.toNat_shiftLeft, BitVec.toNat_ofNat, Nat.shiftLeft_eq, Int64.toNat_toBitVec,
    Nat.mod_eq_of_lt (show amount < 2 ^ 64 by omega)]

/-- The highest bit of a word tells its sign. -/
theorem toInt_eq_toNat (w : Int64) :
    w.toInt = if w.toUInt64.toNat < 2 ^ 63 then (w.toUInt64.toNat : Int)
      else w.toUInt64.toNat - 2 ^ 64 := by
  rw [← Int64.toInt_toBitVec, BitVec.toInt_eq_toNat_cond, Int64.toNat_toBitVec]
  split_ifs <;> omega

/-- A word whose bits are above those of another one. -/
theorem toNat_or_of_lt {result high : Int64} {places top : Nat}
    (hresult : result.toUInt64.toNat < 2 ^ places)
    (hhigh : high.toUInt64.toNat = 2 ^ places * top) :
    (result ||| high).toUInt64.toNat = result.toUInt64.toNat + 2 ^ places * top := by
  rw [Int64.toUInt64_or, UInt64.toNat_or, hhigh, Nat.or_comm,
    ← Nat.two_pow_add_eq_or_of_lt hresult, Nat.add_comm]

theorem toNat_signedGroup (b : UInt8) : (b &&& 0x7f).toUInt64.toInt64.toUInt64.toNat = payload b :=
  toNat_group b

/-- The bit of a byte that is the sign of its group. -/
theorem and_sign_ne_zero_iff (b : UInt8) : b &&& 0x40 ≠ 0 ↔ signed? b = true := by
  have hbit : b.toNat &&& 2 ^ 6 = 0 ↔ b.toNat / 2 ^ 6 % 2 = 0 := by
    rw [Nat.and_two_pow, Nat.testBit_eq_decide_div_mod_eq]
    simp
  rw [ne_eq, ← UInt8.toNat_inj, UInt8.toNat_and, signed?, payload, decide_eq_true_eq]
  exact (not_congr hbit).trans (by omega)

/-! ### The groups of an integer in a word -/

/-- Nine groups leave the highest place free, so the word is their sum. -/
theorem exists_place {result : Int64} {shift : Nat} (b : UInt8) (hshift : shift + 7 ≤ 63)
    (hresult : result.toUInt64.toNat < 2 ^ shift) :
    ∃ moved, signedShiftLeft? (b &&& 0x7f).toUInt64.toInt64 shift = some moved ∧
      (result ||| moved).toUInt64.toNat = result.toUInt64.toNat + payload b * 2 ^ shift ∧
      (result ||| moved).toUInt64.toNat < 2 ^ (shift + 7) := by
  have hlow := payload_lt b
  have hplace : payload b * 2 ^ shift ≤ 127 * 2 ^ shift :=
    Nat.mul_le_mul_right _ (Nat.le_of_lt_succ hlow)
  have hwide : 2 ^ (shift + 7) = 2 ^ shift * 128 := pow_add 2 shift 7
  have hword : 2 ^ (shift + 7) ≤ 2 ^ 63 := Nat.pow_le_pow_right (by decide) hshift
  have hmoved : ((b &&& 0x7f).toUInt64.toInt64 <<< Int64.ofNat shift).toUInt64.toNat =
      2 ^ shift * payload b := by
    rw [toNat_signedShiftLeft _ (by omega), toNat_signedGroup, Nat.mod_eq_of_lt (by omega),
      Nat.mul_comm]
  have hsum := toNat_or_of_lt hresult hmoved
  rw [Nat.mul_comm] at hsum
  exact ⟨_, by rw [signedShiftLeft?, if_pos (by omega)], hsum, by omega⟩

/-- Behind nine groups at most, the sign takes the value of the next place away. -/
theorem exists_extendSign? {result : Int64} {places : Nat} (b : UInt8) (hplaces : places ≤ 63)
    (hresult : result.toUInt64.toNat < 2 ^ places) :
    ∃ answer, extendSign? places b result = some answer ∧
      answer.toInt = result.toUInt64.toNat - if signed? b then 2 ^ places else 0 := by
  have hpos := Nat.two_pow_pos places
  have hword : 2 ^ places ≤ 2 ^ 63 := Nat.pow_le_pow_right (by decide) hplaces
  by_cases hsign : signed? b = true
  · have hsplit : 2 ^ places * 2 ^ (64 - places) = 2 ^ 64 := by
      rw [← pow_add]
      congr 1
      omega
    have hones : ((-1 : Int64) <<< Int64.ofNat places).toUInt64.toNat =
        2 ^ places * (2 ^ (64 - places) - 1) := by
      rw [toNat_signedShiftLeft _ (by omega), Nat.mul_sub, hsplit, Nat.mul_one,
        show (-1 : Int64).toUInt64.toNat = 2 ^ 64 - 1 from rfl]
      omega
    have hsum := toNat_or_of_lt hresult hones
    rw [Nat.mul_sub, hsplit, Nat.mul_one] at hsum
    refine ⟨result ||| (-1) <<< Int64.ofNat places, ?_, ?_⟩
    · rw [extendSign?, if_pos ⟨by omega, (and_sign_ne_zero_iff b).mpr hsign⟩, signedShiftLeft?,
        if_pos (by omega)]
      rfl
    · have hcast : ((2 ^ places : Nat) : Int) = 2 ^ places := Nat.cast_pow 2 places
      rw [toInt_eq_toNat, hsum, if_neg (by omega), if_pos hsign, ← hcast]
      omega
  · refine ⟨result, ?_, ?_⟩
    · rw [extendSign?, if_neg fun h ↦ hsign ((and_sign_ne_zero_iff b).mp h.2)]
    · rw [toInt_eq_toNat, if_pos (by omega), if_neg hsign, Int.sub_zero]

/-- The tenth group has one place left, which is that of the sign. -/
theorem exists_tenth {result : Int64} {b : UInt8} (hb : b = 0x00 ∨ b = 0x7f)
    (hresult : result.toUInt64.toNat < 2 ^ 63) :
    ∃ moved, signedShiftLeft? (b &&& 0x7f).toUInt64.toInt64 63 = some moved ∧
      (result ||| moved).toInt = result.toUInt64.toNat + signedValue [b] * 2 ^ 63 := by
  have hmoved (top : Nat) (htop : payload b % 2 = top) :
      ((b &&& 0x7f).toUInt64.toInt64 <<< Int64.ofNat 63).toUInt64.toNat = 2 ^ 63 * top := by
    rw [toNat_signedShiftLeft _ (by decide), toNat_signedGroup]
    omega
  refine ⟨_, rfl, ?_⟩
  rcases hb with rfl | rfl
  · have hsum := toNat_or_of_lt hresult (hmoved 0 rfl)
    rw [toInt_eq_toNat, hsum, if_pos (by omega), show signedValue [0x00] = 0 from rfl]
    omega
  · have hsum := toNat_or_of_lt hresult (hmoved 1 rfl)
    rw [toInt_eq_toNat, hsum, if_neg (by omega), show signedValue [0x7f] = -1 from rfl]
    omega

/-- Wherever the last group stands, the word stands for the integer in two's complement. -/
theorem exists_answer {result : Int64} {shift : Nat} {b : UInt8} (hgroups : 7 ∣ shift)
    (hshift : shift < 64) (htail : shift = 63 → b = 0x00 ∨ b = 0x7f)
    (hresult : result.toUInt64.toNat < 2 ^ shift) :
    ∃ moved answer, signedShiftLeft? (b &&& 0x7f).toUInt64.toInt64 shift = some moved ∧
      extendSign? (shift + 7) b (result ||| moved) = some answer ∧
      answer.toInt = result.toUInt64.toNat + signedValue [b] * 2 ^ shift := by
  by_cases htenth : shift = 63
  · subst htenth
    obtain ⟨moved, hmoved, hanswer⟩ := exists_tenth (htail rfl) hresult
    exact ⟨moved, _, hmoved, if_neg fun h ↦ absurd h.1 (by decide), hanswer⟩
  · obtain ⟨moved, hmoved, hsum, hbound⟩ := exists_place b (by omega) hresult
    obtain ⟨answer, hextended, hanswer⟩ := exists_extendSign? b (by omega) hbound
    refine ⟨moved, answer, hmoved, hextended, ?_⟩
    rw [hanswer, hsum, signedValue]
    push_cast
    rw [pow_add]
    split_ifs
    · ring
    · ring

/-- The comparison with two words is the range of the width. -/
theorem fits?_eq {bits : Nat} (hpos : 0 < bits) (hbits : bits ≤ 64) (w : Int64) :
    fits? bits w = some (decide (-2 ^ (bits - 1) ≤ w.toInt ∧ w.toInt < 2 ^ (bits - 1))) := by
  by_cases hnarrow : bits < 64
  · have hword : 2 ^ (bits - 1) ≤ 2 ^ 62 := Nat.pow_le_pow_right (by decide) (by omega)
    have hcast : ((2 ^ (bits - 1) : Nat) : Int) = 2 ^ (bits - 1) := Nat.cast_pow 2 (bits - 1)
    have hone : ((1 : Int64) <<< Int64.ofNat (bits - 1)).toUInt64.toNat = 2 ^ (bits - 1) := by
      rw [toNat_signedShiftLeft _ (by omega), show (1 : Int64).toUInt64.toNat = 1 from rfl]
      omega
    have hbound : ((1 : Int64) <<< Int64.ofNat (bits - 1)).toInt = (2 ^ (bits - 1) : Nat) := by
      rw [toInt_eq_toNat, hone, if_pos (by omega)]
    have hlower : (-((1 : Int64) <<< Int64.ofNat (bits - 1))).toInt = -(2 ^ (bits - 1) : Nat) := by
      rw [Int64.toInt_neg, hbound]
      exact Int.bmod_eq_of_le (by omega) (by omega)
    have hupper : ((1 : Int64) <<< Int64.ofNat (bits - 1) - 1).toInt =
        (2 ^ (bits - 1) : Nat) - 1 := by
      rw [Int64.toInt_sub, hbound, Int64.toInt_one]
      exact Int.bmod_eq_of_le (by omega) (by omega)
    rw [fits?, if_pos hnarrow, signedShiftLeft?, if_pos (by omega)]
    simp only [Option.bind_eq_bind, Option.bind_some, Int64.le_iff_toInt_le, hlower, hupper,
      ← hcast, Int.le_sub_one_iff]
  · obtain rfl : bits = 64 := by omega
    rw [fits?, if_neg hnarrow]
    exact congrArg some (decide_eq_true ⟨w.le_toInt, w.toInt_lt⟩).symm

/-! ### Reading -/

/-- A group for which an integer has no place. -/
theorem Signed.step_eq_outOfRange {bits shift start : Nat} {b : UInt8}
    (h : bits ≤ shift ∨ shift = 63 ∧ b ≠ 0x00 ∧ b ≠ 0x7f) :
    Signed.step bits shift start b = .outOfRange := by
  rw [Signed.step]
  by_cases hwide : bits ≤ shift
  · exact if_pos hwide
  · rw [if_neg hwide]
    exact if_pos (h.resolve_left hwide)

/-- The last group of an integer ends it, if its value is in range. -/
theorem Signed.step_eq_of_last {bits shift start : Nat} {b : UInt8} (hshift : shift < bits)
    (htail : shift = 63 → b = 0x00 ∨ b = 0x7f) (hb : continues b = false) {i : Int}
    (hvalue : start + signedValue [b] * 2 ^ shift = i) :
    Signed.step bits shift start b =
      if -2 ^ (bits - 1) ≤ i ∧ i < 2 ^ (bits - 1) then .done i else .outOfRange := by
  split_ifs with hrange
  · exact Signed.step_eq_done_iff.mpr ⟨hshift, htail, hb, hvalue, hrange⟩
  · cases hstep : Signed.step bits shift start b with
    | more next =>
      rw [(Signed.step_eq_more_iff.mp hstep).2.2.1] at hb
      cases hb
    | done j =>
      obtain ⟨-, -, -, hj, hbounds⟩ := Signed.step_eq_done_iff.mp hstep
      exact absurd (hj.symm.trans hvalue ▸ hbounds) hrange
    | outOfRange => rfl

/-- The word holds the integer in two's complement, and every shift that is made has an answer. -/
theorem scanSignedWords?_eq {bits shift : Nat} {result : Int64} {input : Bytes} (hbits : bits ≤ 64)
    (hgroups : 7 ∣ shift) (hshift : shift ≤ 63) (hresult : result.toUInt64.toNat < 2 ^ shift) :
    scanSignedWords? bits shift result input =
      some ((Int64.ofInt <$> scan bits (Signed.step bits) shift result.toUInt64.toNat) input) := by
  induction input generalizing shift result with
  | nil => rfl
  | cons b later ih =>
    rw [Reader.map_apply, scan, scanSignedWords?]
    by_cases hwide : bits ≤ shift
    · rw [if_pos hwide, Signed.step_eq_outOfRange (.inl hwide)]
    by_cases hstray : shift = 63 ∧ b ≠ 0x00 ∧ b ≠ 0x7f
    · rw [if_neg hwide, if_pos hstray, Signed.step_eq_outOfRange (.inr hstray)]
    rw [if_neg hwide, if_neg hstray]
    have htail : shift = 63 → b = 0x00 ∨ b = 0x7f := fun h ↦ by
      by_contra hne
      exact hstray ⟨h, not_or.mp hne⟩
    cases hb : continues b with
    | false =>
      obtain ⟨moved, answer, hmoved, hextended, hanswer⟩ :=
        exists_answer hgroups (by omega) htail hresult
      rw [Signed.step_eq_of_last (Nat.lt_of_not_le hwide) htail hb hanswer.symm]
      simp only [hmoved, hextended, fits?_eq (show 0 < bits by omega) hbits,
        (and_eq_zero_iff b).mpr hb, Option.bind_eq_bind, Option.bind_some, if_true,
        decide_eq_true_eq]
      split_ifs
      · simp
      · rfl
    | true =>
      have hinner : shift ≠ 63 := by
        intro h
        rcases htail h with rfl | rfl <;> cases hb
      obtain ⟨moved, hmoved, hsum, hbound⟩ := exists_place b (show shift + 7 ≤ 63 by omega) hresult
      have hnot : b &&& 0x80 ≠ 0 := by
        rw [ne_eq, and_eq_zero_iff, hb]
        decide
      rw [Signed.step_eq_more_iff.mpr ⟨Nat.lt_of_not_le hwide, hinner, hb, hsum.symm⟩]
      simp only [hmoved, Option.bind_eq_bind, Option.bind_some, if_neg hnot]
      rw [ih (by omega) (by omega) hbound, Reader.map_apply]

/-- An integer is read from a complete row of groups that is not too long and has a value in range,
where the sign of the last group takes away the value of the next place; it is read from nothing
else. If there is no such row in front, then the integer is out of range, unless all bytes announce
another one. The integer is had with signed words of sixty-four bits: no shift reaches that width,
and every word that is an answer stands for the integer. -/
theorem signed_exact (width : Width) (input : Bytes) :
    (∀ i rest, signed width input = .ok i rest ↔
      ∃ e, input = e ++ rest ∧ Groups e ∧ e.length ≤ width.maxGroups ∧
        (value e - if e.getLast?.any signed? then 128 ^ e.length else 0 : Int) = i ∧
        -2 ^ (width.bits - 1) ≤ i ∧ i < 2 ^ (width.bits - 1)) ∧
    ((∃ b ∈ input, continues b = false) → (∀ i rest, signed width input ≠ .ok i rest) →
      ∃ rest, signed width input = .error (.outOfRange width.bits) rest) ∧
    scanSignedWords? width.bits 0 0 input = some ((Int64.ofInt <$> signed width) input) := by
  refine ⟨fun i rest ↦ ?_, fun hlast hrefused ↦ ?_, ?_⟩
  · rw [signed_eq_ok_iff]
    constructor
    · rintro ⟨e, ⟨he, hlength, hvalue, hrange⟩, rfl⟩
      exact ⟨e, rfl, he, hlength, by rw [← signedValue_eq he, hvalue], hrange⟩
    · rintro ⟨e, rfl, he, hlength, hvalue, hrange⟩
      exact ⟨e, ⟨he, hlength, by rw [signedValue_eq he, hvalue], hrange⟩, rfl⟩
  · exact exists_scan_eq_outOfRange
      (fun _ _ _ _ hmore ↦ (Signed.step_eq_more_iff.mp hmore).2.2.1) hlast hrefused
  · exact scanSignedWords?_eq width.le (Nat.dvd_zero 7) (by decide) (by decide)

/-- A row whose tenth group has a bit that does not repeat the sign. -/
def strayRow : Bytes := List.replicate 9 0x80 ++ [0x7e, 0x00]

/-- The row of the smallest integer of sixty-four bits. -/
def smallestRow : Bytes := List.replicate 9 0x80 ++ [0x7f]

theorem signed_exact_rows :
    (∃ b ∈ strayRow, continues b = false) ∧
    (∀ i rest, signed .w64 strayRow ≠ .ok i rest) ∧
    (∃ rest, signed .w64 strayRow = .error (.outOfRange 64) rest) ∧
    signed .w64 (smallestRow ++ [0x2a]) = .ok (-2 ^ 63) [0x2a] := by
  have hlast : ∃ b ∈ strayRow, continues b = false := ⟨0x7e, by decide, by decide⟩
  have hrefused (i : Int) (rest : Bytes) : signed .w64 strayRow ≠ .ok i rest := nofun
  have hgroups : Groups smallestRow := by
    repeat' first | exact .last rfl | refine .inner rfl ?_
  refine ⟨hlast, hrefused, (signed_exact .w64 strayRow).2.1 hlast hrefused, ?_⟩
  refine ((signed_exact .w64 (smallestRow ++ [0x2a])).1 (-2 ^ 63) [0x2a]).mpr ?_
  exact ⟨smallestRow, rfl, hgroups, by decide, by decide +kernel, by decide, by decide⟩

end WasmMeter.Leb128
