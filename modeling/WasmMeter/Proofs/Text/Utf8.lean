import Mathlib.Tactic.Convert
import Mathlib.Tactic.SplitIfs
import WasmMeter.Text.Utf8

/-!
# UTF-8 has one form for each text

A character is stored in one of four kinds of sequences, and the bytes of a sequence give its code
point (`Sequence`). Such a sequence is what a character is written to (`Sequence.encodeChar_eq`),
and what a piece that is a character has taken (`Sequence.front_eq`, `exists_sequence_of_front`). So
the bytes that decode to a text are those that it is encoded to, and no others (`decode_eq_ok_iff`).
-/

set_option autoImplicit false

namespace WasmMeter.Utf8

/-! ### Sequences -/

/-- A byte that continues a sequence. -/
def IsTail (b : UInt8) : Prop := 0x80 ≤ b.toNat ∧ b.toNat ≤ 0xBF

/-- The bytes of one character and its code point. The second byte of a sequence is limited where
the code point could be had with fewer bytes, where it would be a surrogate, and where it would be
too large. -/
inductive Sequence : Bytes → Nat → Prop
  | one {b : UInt8} (hb : b.toNat < 0x80) : Sequence [b] b.toNat
  | two {b c : UInt8} (hb : 0xC2 ≤ b.toNat ∧ b.toNat < 0xE0) (hc : IsTail c) :
    Sequence [b, c] (b.toNat % 32 * 64 + c.toNat % 64)
  | three {b c d : UInt8} (hb : 0xE0 ≤ b.toNat ∧ b.toNat < 0xF0) (hc : IsTail c) (hd : IsTail d)
    (hlong : b.toNat = 0xE0 → 0xA0 ≤ c.toNat) (hsurrogate : b.toNat = 0xED → c.toNat ≤ 0x9F) :
    Sequence [b, c, d] ((b.toNat % 16 * 64 + c.toNat % 64) * 64 + d.toNat % 64)
  | four {b c d e : UInt8} (hb : 0xF0 ≤ b.toNat ∧ b.toNat ≤ 0xF4) (hc : IsTail c) (hd : IsTail d)
    (he : IsTail e) (hlong : b.toNat = 0xF0 → 0x90 ≤ c.toNat)
    (hlarge : b.toNat = 0xF4 → c.toNat ≤ 0x8F) :
    Sequence [b, c, d, e]
      (((b.toNat % 8 * 64 + c.toNat % 64) * 64 + d.toNat % 64) * 64 + e.toNat % 64)

theorem toNat_ofNat {n : Nat} (hn : n.isValidChar) : (Char.ofNat n).toNat = n := by
  rw [Char.ofNat, dif_pos hn]
  rfl

/-- The limits of the second byte leave out the surrogates and what is too large. -/
theorem Sequence.isValidChar {bytes : Bytes} {n : Nat} (h : Sequence bytes n) :
    n.isValidChar := by
  unfold Nat.isValidChar
  cases h with
  | one hb => omega
  | two hb hc => omega
  | three hb hc hd hlong hsurrogate => unfold IsTail at hc hd; omega
  | four hb hc hd he hlong hlarge => unfold IsTail at hc hd he; omega

theorem Sequence.ne_nil {bytes : Bytes} {n : Nat} (h : Sequence bytes n) : bytes ≠ [] := by
  cases h <;> simp

/-- A character is written to its sequence. -/
theorem Sequence.encodeChar_eq {bytes : Bytes} {n : Nat} (h : Sequence bytes n) :
    encodeChar (Char.ofNat n) = bytes := by
  simp only [encodeChar, toNat_ofNat h.isValidChar]
  cases h with
  | one hb =>
    rw [if_pos hb, UInt8.ofNat_toNat]
  | two hb hc =>
    unfold IsTail at hc
    rw [if_neg (by omega), if_pos (by omega)]
    simp only [List.cons.injEq, ← UInt8.toNat_inj, UInt8.toNat_ofNat', and_true]
    omega
  | three hb hc hd hlong hsurrogate =>
    unfold IsTail at hc hd
    rw [if_neg (by omega), if_neg (by omega), if_pos (by omega)]
    simp only [List.cons.injEq, ← UInt8.toNat_inj, UInt8.toNat_ofNat', and_true]
    omega
  | four hb hc hd he hlong hlarge =>
    unfold IsTail at hc hd he
    rw [if_neg (by omega), if_neg (by omega), if_neg (by omega)]
    simp only [List.cons.injEq, ← UInt8.toNat_inj, UInt8.toNat_ofNat', and_true]
    omega

/-- Every character has a sequence. -/
theorem exists_sequence (c : Char) : ∃ bytes, Sequence bytes c.toNat := by
  have hvalid : c.toNat.isValidChar := c.valid
  unfold Nat.isValidChar at hvalid
  have hbyte (n : Nat) (hn : n < 256) : (UInt8.ofNat n).toNat = n := by
    rw [UInt8.toNat_ofNat']
    omega
  have htail (n : Nat) : IsTail (UInt8.ofNat (0x80 + n % 64)) := by
    unfold IsTail
    rw [hbyte _ (by omega)]
    omega
  by_cases hone : c.toNat < 0x80
  · refine ⟨[UInt8.ofNat c.toNat], ?_⟩
    have h := Sequence.one (b := UInt8.ofNat c.toNat) (by rw [hbyte _ (by omega)]; exact hone)
    rwa [hbyte _ (by omega)] at h
  by_cases htwo : c.toNat < 0x800
  · refine ⟨[UInt8.ofNat (0xC0 + c.toNat / 64), UInt8.ofNat (0x80 + c.toNat % 64)], ?_⟩
    have h := Sequence.two (b := UInt8.ofNat (0xC0 + c.toNat / 64))
      (by rw [hbyte _ (by omega)]; omega) (htail c.toNat)
    rw [hbyte _ (by omega), hbyte _ (by omega)] at h
    convert h using 1
    omega
  by_cases hthree : c.toNat < 0x10000
  · refine ⟨[UInt8.ofNat (0xE0 + c.toNat / 4096), UInt8.ofNat (0x80 + c.toNat / 64 % 64),
      UInt8.ofNat (0x80 + c.toNat % 64)], ?_⟩
    have h := Sequence.three (b := UInt8.ofNat (0xE0 + c.toNat / 4096))
      (by rw [hbyte _ (by omega)]; omega) (htail (c.toNat / 64)) (htail c.toNat)
      (by rw [hbyte _ (by omega), hbyte _ (by omega)]; omega)
      (by rw [hbyte _ (by omega), hbyte _ (by omega)]; omega)
    rw [hbyte _ (by omega), hbyte _ (by omega), hbyte _ (by omega)] at h
    convert h using 1
    omega
  · refine ⟨[UInt8.ofNat (0xF0 + c.toNat / 262144), UInt8.ofNat (0x80 + c.toNat / 4096 % 64),
      UInt8.ofNat (0x80 + c.toNat / 64 % 64), UInt8.ofNat (0x80 + c.toNat % 64)], ?_⟩
    have h := Sequence.four (b := UInt8.ofNat (0xF0 + c.toNat / 262144))
      (by rw [hbyte _ (by omega)]; omega) (htail (c.toNat / 4096)) (htail (c.toNat / 64))
      (htail c.toNat) (by rw [hbyte _ (by omega), hbyte _ (by omega)]; omega)
      (by rw [hbyte _ (by omega), hbyte _ (by omega)]; omega)
    rw [hbyte _ (by omega), hbyte _ (by omega), hbyte _ (by omega), hbyte _ (by omega)] at h
    convert h using 1
    omega

/-! ### Pieces -/

/-- A sequence that still owes bytes becomes a character only if the next byte is in range. -/
theorem continuation_succ_eq_char_iff {owed low high point taken : Nat} {input left : Bytes}
    {c : Char} :
    continuation (owed + 1) low high point taken input = (.char c, left) ↔
      ∃ b later, input = b :: later ∧ (low ≤ b.toNat ∧ b.toNat ≤ high) ∧
        continuation owed 0x80 0xBF (point * 64 + b.toNat % 64) (taken + 1) later =
          (.char c, left) := by
  cases input with
  | nil => simp [continuation]
  | cons b later =>
    rw [continuation]
    split_ifs with hrange
    · constructor
      · exact fun h ↦ ⟨b, later, rfl, hrange, h⟩
      · rintro ⟨_, _, ⟨⟩, -, h⟩
        exact h
    · simp only [Prod.mk.injEq, reduceCtorEq, false_and, false_iff]
      rintro ⟨_, _, ⟨⟩, hin, -⟩
      exact hrange hin

theorem continuation_zero_eq_char_iff {low high point taken : Nat} {input left : Bytes} {c : Char} :
    continuation 0 low high point taken input = (.char c, left) ↔
      Char.ofNat point = c ∧ input = left := by
  simp [continuation]

/-- Where the second byte of three may start. -/
def lowOfThree (b : UInt8) : Nat := if b.toNat = 0xE0 then 0xA0 else 0x80

/-- Where the second byte of three may end. -/
def highOfThree (b : UInt8) : Nat := if b.toNat = 0xED then 0x9F else 0xBF

/-- Where the second byte of four may start. -/
def lowOfFour (b : UInt8) : Nat := if b.toNat = 0xF0 then 0x90 else 0x80

/-- Where the second byte of four may end. -/
def highOfFour (b : UInt8) : Nat := if b.toNat = 0xF4 then 0x8F else 0xBF

section
variable {b : UInt8} {rest : Bytes}

/-- The range of the second of three bytes is that of a tail with two exceptions. -/
theorem range_of_three_iff {c : UInt8} :
    (lowOfThree b ≤ c.toNat ∧ c.toNat ≤ highOfThree b) ↔
      IsTail c ∧ (b.toNat = 0xE0 → 0xA0 ≤ c.toNat) ∧ (b.toNat = 0xED → c.toNat ≤ 0x9F) := by
  unfold lowOfThree highOfThree IsTail
  split <;> split <;> omega

/-- The range of the second of four bytes is that of a tail with two exceptions. -/
theorem range_of_four_iff {c : UInt8} :
    (lowOfFour b ≤ c.toNat ∧ c.toNat ≤ highOfFour b) ↔
      IsTail c ∧ (b.toNat = 0xF0 → 0x90 ≤ c.toNat) ∧ (b.toNat = 0xF4 → c.toNat ≤ 0x8F) := by
  unfold lowOfFour highOfFour IsTail
  split <;> split <;> omega

theorem front_of_one (hb : b.toNat < 0x80) : front b rest = (.char (Char.ofNat b.toNat), rest) := by
  rw [front, if_pos hb]

theorem front_of_two (hb : 0xC2 ≤ b.toNat ∧ b.toNat < 0xE0) :
    front b rest = continuation 1 0x80 0xBF (b.toNat % 32) 1 rest := by
  rw [front, if_neg (by omega), if_neg (by omega), if_pos hb.2]

theorem front_of_three (hb : 0xE0 ≤ b.toNat ∧ b.toNat < 0xF0) :
    front b rest = continuation 2 (lowOfThree b) (highOfThree b) (b.toNat % 16) 1 rest := by
  rw [front, if_neg (by omega), if_neg (by omega), if_neg (by omega), lowOfThree, highOfThree]
  by_cases hlong : b.toNat = 0xE0
  · rw [if_pos hlong, if_pos hlong, if_neg (by omega)]
  · rw [if_neg hlong, if_neg hlong]
    by_cases hsurrogate : b.toNat = 0xED
    · rw [if_pos hsurrogate, if_pos hsurrogate]
    · rw [if_neg hsurrogate, if_neg hsurrogate, if_pos hb.2]

theorem front_of_four (hb : 0xF0 ≤ b.toNat ∧ b.toNat ≤ 0xF4) :
    front b rest = continuation 3 (lowOfFour b) (highOfFour b) (b.toNat % 8) 1 rest := by
  rw [front, if_neg (by omega), if_neg (by omega), if_neg (by omega), if_neg (by omega),
    if_neg (by omega), if_neg (by omega), lowOfFour, highOfFour]
  by_cases hlong : b.toNat = 0xF0
  · rw [if_pos hlong, if_pos hlong, if_neg (by omega)]
  · rw [if_neg hlong, if_neg hlong]
    by_cases hlarge : b.toNat = 0xF4
    · rw [if_neg (by omega), if_pos hlarge, if_pos hlarge]
    · rw [if_pos (by omega), if_neg hlarge]

/-- No sequence starts with a tail, nor with a byte that would make it too short or too long. -/
theorem front_of_none (hb : 0x80 ≤ b.toNat ∧ b.toNat < 0xC2 ∨ 0xF4 < b.toNat) :
    front b rest = (.defect (some 1), rest) := by
  rw [front, if_neg (by omega)]
  rcases hb with hshort | hlarge
  · rw [if_pos hshort.2]
  · rw [if_neg (by omega), if_neg (by omega), if_neg (by omega), if_neg (by omega),
      if_neg (by omega), if_neg (by omega), if_neg (by omega), if_neg (by omega)]

end

/-- The bytes of a sequence make a piece that is its character, whatever follows them. -/
theorem Sequence.front_eq {b : UInt8} {tail rest : Bytes} {n : Nat} (h : Sequence (b :: tail) n) :
    front b (tail ++ rest) = (.char (Char.ofNat n), rest) := by
  cases h with
  | one hb => exact front_of_one hb
  | @two _ c hb hc =>
    rw [front_of_two hb, continuation_succ_eq_char_iff]
    exact ⟨c, rest, rfl, hc, continuation_zero_eq_char_iff.mpr ⟨rfl, rfl⟩⟩
  | @three _ c d hb hc hd hlong hsurrogate =>
    have hrange := range_of_three_iff.mpr ⟨hc, hlong, hsurrogate⟩
    rw [front_of_three hb, continuation_succ_eq_char_iff]
    refine ⟨c, d :: rest, rfl, hrange, continuation_succ_eq_char_iff.mpr ?_⟩
    exact ⟨d, rest, rfl, hd, continuation_zero_eq_char_iff.mpr ⟨rfl, rfl⟩⟩
  | @four _ c d e hb hc hd he hlong hlarge =>
    have hrange := range_of_four_iff.mpr ⟨hc, hlong, hlarge⟩
    rw [front_of_four hb, continuation_succ_eq_char_iff]
    refine ⟨c, d :: e :: rest, rfl, hrange, continuation_succ_eq_char_iff.mpr ?_⟩
    refine ⟨d, e :: rest, rfl, hd, continuation_succ_eq_char_iff.mpr ?_⟩
    exact ⟨e, rest, rfl, he, continuation_zero_eq_char_iff.mpr ⟨rfl, rfl⟩⟩

/-- A piece that is a character has taken a sequence. -/
theorem exists_sequence_of_front {b : UInt8} {later left : Bytes} {c : Char}
    (h : front b later = (.char c, left)) :
    ∃ tail n, Sequence (b :: tail) n ∧ tail ++ left = later ∧ Char.ofNat n = c := by
  by_cases hone : b.toNat < 0x80
  · rw [front_of_one hone] at h
    cases h
    exact ⟨[], _, .one hone, rfl, rfl⟩
  by_cases htwo : 0xC2 ≤ b.toNat ∧ b.toNat < 0xE0
  · rw [front_of_two htwo] at h
    obtain ⟨d, later, rfl, hd, h⟩ := continuation_succ_eq_char_iff.mp h
    obtain ⟨rfl, rfl⟩ := continuation_zero_eq_char_iff.mp h
    exact ⟨[d], _, .two htwo hd, rfl, rfl⟩
  by_cases hthree : 0xE0 ≤ b.toNat ∧ b.toNat < 0xF0
  · rw [front_of_three hthree] at h
    obtain ⟨d, later, rfl, hd, h⟩ := continuation_succ_eq_char_iff.mp h
    obtain ⟨e, later, rfl, he, h⟩ := continuation_succ_eq_char_iff.mp h
    obtain ⟨rfl, rfl⟩ := continuation_zero_eq_char_iff.mp h
    obtain ⟨hd, hlong, hsurrogate⟩ := range_of_three_iff.mp hd
    exact ⟨[d, e], _, .three hthree hd he hlong hsurrogate, rfl, rfl⟩
  by_cases hfour : 0xF0 ≤ b.toNat ∧ b.toNat ≤ 0xF4
  · rw [front_of_four hfour] at h
    obtain ⟨d, later, rfl, hd, h⟩ := continuation_succ_eq_char_iff.mp h
    obtain ⟨e, later, rfl, he, h⟩ := continuation_succ_eq_char_iff.mp h
    obtain ⟨f, later, rfl, hf, h⟩ := continuation_succ_eq_char_iff.mp h
    obtain ⟨rfl, rfl⟩ := continuation_zero_eq_char_iff.mp h
    obtain ⟨hd, hlong, hlarge⟩ := range_of_four_iff.mp hd
    exact ⟨[d, e, f], _, .four hfour hd he hf hlong hlarge, rfl, rfl⟩
  · rw [front_of_none (by omega)] at h
    cases h

/-- A piece is a character exactly where the bytes of that character stand. -/
theorem front_eq_char_iff {b : UInt8} {later left : Bytes} {c : Char} :
    front b later = (.char c, left) ↔ b :: later = encodeChar c ++ left := by
  constructor
  · intro h
    obtain ⟨tail, n, hsequence, rfl, rfl⟩ := exists_sequence_of_front h
    rw [hsequence.encodeChar_eq]
    rfl
  · intro h
    obtain ⟨bytes, hsequence⟩ := exists_sequence c
    have hbytes := hsequence.encodeChar_eq
    rw [Char.ofNat_toNat] at hbytes
    rw [hbytes] at h
    obtain ⟨b', tail, rfl⟩ := List.exists_cons_of_ne_nil hsequence.ne_nil
    rw [List.cons_append] at h
    obtain ⟨rfl, rfl⟩ := List.cons.inj h
    rw [hsequence.front_eq, Char.ofNat_toNat]

/-! ### Texts -/

theorem encodeChar_ne_nil (c : Char) : encodeChar c ≠ [] := by
  simp only [encodeChar]
  split_ifs <;> simp

/-- The pieces of a text are characters, each of which stands where the one before it ends. -/
theorem characters_cons_eq_ok_iff {index : Nat} {piece : Piece} {pieces : List Piece}
    {cs : List Char} :
    characters index (piece :: pieces) = .ok cs ↔
      ∃ c ds, piece = .char c ∧ cs = c :: ds ∧
        characters (index + (encodeChar c).length) pieces = .ok ds := by
  cases piece with
  | defect length => simp [characters]
  | char c =>
    rw [characters]
    cases hds : characters (index + (encodeChar c).length) pieces with
    | error defect =>
      simp only [reduceCtorEq, false_iff]
      rintro ⟨d, ds, ⟨⟩, rfl, h⟩
      rw [hds] at h
      cases h
    | ok ds =>
      constructor
      · rintro ⟨⟩
        exact ⟨c, ds, rfl, rfl, hds⟩
      · rintro ⟨d, es, ⟨⟩, rfl, h⟩
        rw [hds, Except.ok.injEq] at h
        rw [h]

/-- The pieces of a byte string are the characters of a text exactly if the text is encoded to
it. -/
theorem characters_piecesUpTo_eq_ok_iff {bound index : Nat} {bytes : Bytes} {cs : List Char}
    (hbound : bytes.length ≤ bound) :
    characters index (piecesUpTo bound bytes) = .ok cs ↔ bytes = encodeChars cs := by
  induction bound generalizing index bytes cs with
  | zero =>
    obtain rfl := List.eq_nil_of_length_eq_zero (Nat.le_zero.mp hbound)
    cases cs <;> simp [piecesUpTo, characters, encodeChars, encodeChar_ne_nil]
  | succ bound ih =>
    cases bytes with
    | nil => cases cs <;> simp [piecesUpTo, characters, encodeChars, encodeChar_ne_nil]
    | cons b later =>
      rw [piecesUpTo, characters_cons_eq_ok_iff]
      constructor
      · rintro ⟨c, ds, hpiece, rfl, hlater⟩
        have hfront : front b later = (.char c, (front b later).2) := Prod.ext hpiece rfl
        obtain ⟨tail, n, -, happend, -⟩ := exists_sequence_of_front hfront
        have hshort : (front b later).2.length ≤ bound := by
          rw [← happend] at hbound
          simp only [List.length_cons, List.length_append] at hbound
          omega
        rw [front_eq_char_iff.mp hfront, (ih hshort).mp hlater]
        rfl
      · intro h
        cases cs with
        | nil => cases h
        | cons c ds =>
          have hfront : front b later = (.char c, encodeChars ds) := front_eq_char_iff.mpr h
          obtain ⟨tail, n, -, rfl, -⟩ := exists_sequence_of_front hfront
          simp only [List.length_cons, List.length_append] at hbound
          rw [hfront]
          exact ⟨c, ds, rfl, rfl, (ih (show (encodeChars ds).length ≤ bound by omega)).mpr rfl⟩

/-- A byte string decodes to the text that is encoded to it, and to no other. -/
theorem decode_eq_ok_iff {bytes : Bytes} {text : String} :
    decode bytes = .ok text ↔ bytes = encode text := by
  have hpieces {cs : List Char} :
      characters 0 (pieces bytes) = .ok cs ↔ bytes = encodeChars cs :=
    characters_piecesUpTo_eq_ok_iff (Nat.le_refl _)
  rw [decode, encode]
  cases hcs : characters 0 (pieces bytes) with
  | error defect =>
    simp only [Except.map, reduceCtorEq, false_iff]
    intro h
    rw [hpieces.mpr h] at hcs
    cases hcs
  | ok cs =>
    have hbytes := hpieces.mp hcs
    simp only [Except.map, Except.ok.injEq]
    constructor
    · rintro rfl
      rw [String.toList_ofList]
      exact hbytes
    · intro h
      have heq := hpieces.mpr h
      rw [hcs, Except.ok.injEq] at heq
      rw [heq, String.ofList_toList]

end WasmMeter.Utf8
