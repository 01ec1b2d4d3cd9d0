import WasmMeter.Listing
import WasmMeter.Proofs.Bytes
import WasmMeter.Proofs.Listing.Grammar
import WasmMeter.Proofs.Opcode
import WasmMeter.Proofs.Reader
import WasmMeter.Proofs.Text.Numeral
import WasmMeter.Proofs.Text.Words

/-!
# Listings are read by the grammar

What a word is read as says what it spells (`Listing.index?_eq_some_iff` and the lemmas like it), as
numerals of a width and the bits of floats fit where they are kept. So what is read as an immediate
is spelled by the words that are taken (`Listing.spelledBy_of_immediate_eq_ok`), and what spells an
immediate is read as this immediate (`Listing.immediate_append_eq_ok`). As all numerals behind a
branch table are taken, the word behind the last one matters. Instructions are read in the same way
(`Listing.instruction_eq_ok_iff`). Each takes its name at least, so a text is read instruction by
instruction up to the end (`Listing.untilEnd_instruction_eq_ok_iff`).
-/

set_option autoImplicit false

namespace WasmMeter

theorem LanguageType.ofName?_eq_some_iff {name : String} {type : LanguageType} :
    ofName? name = some type ↔ name = type.name := by
  constructor
  · intro h
    unfold ofName? at h
    split at h
    · cases h; rfl
    · cases h; rfl
    · cases h; rfl
    · obtain ⟨valueType, hvalueType, rfl⟩ := Option.map_eq_some_iff.mp h
      exact (ValueType.name_of_ofName? hvalueType).symm
  · rintro rfl
    exact ofName?_name type

namespace Listing

variable {α β : Type} {word : String} {words rest : List String}

/-! ### Words -/

/-- A word that is kept in another type, which has room for it. -/
theorem map_eq_some_iff_of_inverse {f : α → β} {g : β → α} {spelled : Option α}
    (hgf : ∀ a ∈ spelled, g (f a) = a) (hfg : ∀ b, f (g b) = b) {b : β} :
    spelled.map f = some b ↔ spelled = some (g b) := by
  rw [Option.map_eq_some_iff]
  constructor
  · rintro ⟨a, ha, rfl⟩
    rw [hgf a ha, ha]
  · rintro h
    exact ⟨g b, h, hfg b⟩

theorem index?_eq_some_iff {n : UInt32} :
    index? word = some n ↔ SpellsIndex word n := by
  refine map_eq_some_iff_of_inverse (fun a ha ↦ ?_) fun _ ↦ UInt32.ofNat_toNat
  exact UInt32.toNat_ofNat_of_lt (Numeral.lt_of_unsigned? ha)

theorem index?_eq_none_iff :
    index? word = none ↔ Numeral.unsigned? 32 word.toList = none := Option.map_eq_none_iff

theorem flag?_eq_some_iff {flag : UInt8} :
    flag? word = some flag ↔
      Numeral.unsigned? 8 word.toList = some flag.toNat ∧ (flag = 0 ∨ flag = 1) := by
  have hflag : flag.toNat < 2 ^ 1 ↔ flag = 0 ∨ flag = 1 := by
    rw [← UInt8.toNat_inj, ← UInt8.toNat_inj, UInt8.toNat_zero, UInt8.toNat_one]
    omega
  rw [← hflag, ← Numeral.unsigned?_eq_some_iff_of_le (by decide)]
  refine map_eq_some_iff_of_inverse (fun a ha ↦ ?_) fun _ ↦ UInt8.ofNat_toNat
  exact UInt8.toNat_ofNat_of_lt ((Numeral.lt_of_unsigned? ha).trans (by decide))

theorem int32?_eq_some_iff {i : Int32} :
    int32? word = some i ↔ Numeral.signed? 32 word.toList = some i.toInt := by
  refine map_eq_some_iff_of_inverse (fun a ha ↦ ?_) Int32.ofInt_toInt
  obtain ⟨hlower, hupper⟩ := Numeral.range_of_signed? ha
  exact Int32.toInt_ofInt_of_le hlower hupper

theorem int64?_eq_some_iff {i : Int64} :
    int64? word = some i ↔ Numeral.signed? 64 word.toList = some i.toInt := by
  refine map_eq_some_iff_of_inverse (fun a ha ↦ ?_) Int64.ofInt_toInt
  obtain ⟨hlower, hupper⟩ := Numeral.range_of_signed? ha
  exact Int64.toInt_ofInt_of_le hlower hupper

theorem float?_eq_some_iff {format : FloatFormat} {bytes : Vector UInt8 format.width} :
    float? format word = some bytes ↔ SpellsFloat format word bytes.toList := by
  rw [float?, Option.map_eq_some_iff]
  refine exists_congr fun literal ↦ and_congr_right fun _ ↦ ?_
  have hbytes := Bytes.ofNat_eq_iff bytes.toList (format.bits literal)
  rw [Vector.length_toList, Nat.mod_eq_of_lt (format.bits_lt literal)] at hbytes
  rw [← Vector.toList_inj, Bytes.toList_word, hbytes, eq_comm]

/-! ### Immediates -/

/-- An immediate that is spelled by one word. -/
theorem operand_eq_ok_iff {opcode : String} {read? : String → Option α} {a : α} :
    operand opcode read? words = .ok a rest ↔
      ∃ word, read? word = some a ∧ word :: rest = words := by
  simp only [operand, Reader.bind_eq_ok_iff, Reader.next_eq_ok_iff, Reader.require_eq_ok_iff]
  constructor
  · rintro ⟨word, _, hwords, hread, rfl⟩
    exact ⟨word, hread, hwords⟩
  · rintro ⟨word, hread, hwords⟩
    exact ⟨word, rest, hwords, hread, rfl⟩

theorem map_operand_eq_ok_iff {opcode : String} {read? : String → Option α} {f : α → Immediate}
    {value : Immediate} :
    (f <$> operand opcode read?) words = .ok value rest ↔
      ∃ word a, read? word = some a ∧ f a = value ∧ word :: rest = words := by
  rw [Reader.map_eq_ok_iff]
  constructor
  · rintro ⟨a, ha, rfl⟩
    obtain ⟨word, hread, hwords⟩ := operand_eq_ok_iff.mp ha
    exact ⟨word, a, hread, rfl, hwords⟩
  · rintro ⟨word, a, hread, rfl, hwords⟩
    exact ⟨a, operand_eq_ok_iff.mpr ⟨word, hread, hwords⟩, rfl⟩

/-- Indices are spelled by numerals only, and are what these are read as. -/
theorem forall₂_spellsIndex_iff {spelled : List String} {labels : List UInt32} :
    List.Forall₂ SpellsIndex spelled labels ↔
      (∀ word ∈ spelled, (index? word).isSome = true) ∧ spelled.filterMap index? = labels := by
  constructor
  · intro h
    induction h with
    | nil => exact ⟨nofun, rfl⟩
    | cons hword _ ih =>
      have hread := index?_eq_some_iff.mpr hword
      rw [List.forall_mem_cons, List.filterMap_cons_some hread, ih.2, hread]
      exact ⟨⟨rfl, ih.1⟩, rfl⟩
  · rintro ⟨hall, rfl⟩
    induction spelled with
    | nil => exact .nil
    | cons word later ih =>
      rw [List.forall_mem_cons] at hall
      obtain ⟨n, hn⟩ := Option.isSome_iff_exists.mp hall.1
      rw [List.filterMap_cons_some hn]
      exact .cons (index?_eq_some_iff.mp hn) (ih hall.2)

/-- All words that are numerals are taken, up to the first that is not. -/
theorem indices_eq_ok_iff {labels : List UInt32} :
    indices words = .ok labels rest ↔
      NoIndexAhead rest ∧
        ∃ spelled, List.Forall₂ SpellsIndex spelled labels ∧ spelled ++ rest = words := by
  simp only [indices, List.span_eq_takeWhile_dropWhile, EStateM.Result.ok.injEq,
    forall₂_spellsIndex_iff]
  constructor
  · rintro ⟨rfl, rfl⟩
    refine ⟨fun word hword ↦ index?_eq_none_iff.mp ?_, words.takeWhile _,
      ⟨fun _ ↦ List.mem_takeWhile_imp, rfl⟩, List.takeWhile_append_dropWhile⟩
    have hstop := List.head?_dropWhile_not (fun word ↦ (index? word).isSome) words
    rw [Option.mem_def.mp hword] at hstop
    simpa using hstop
  · rintro ⟨hrest, spelled, ⟨hall, rfl⟩, rfl⟩
    have hstop : rest.takeWhile (fun word ↦ (index? word).isSome) = [] ∧
        rest.dropWhile (fun word ↦ (index? word).isSome) = rest := by
      cases rest with
      | nil => exact ⟨rfl, rfl⟩
      | cons word later =>
        have hnone : index? word = none := index?_eq_none_iff.mpr (hrest word rfl)
        simp [hnone]
    rw [List.takeWhile_append_of_pos hall, List.dropWhile_append_of_pos hall, hstop.1, hstop.2,
      List.append_nil]
    exact ⟨rfl, rfl⟩

theorem branchTable_eq_ok_iff {opcode : String} {table : BranchTable} :
    branchTable opcode words = .ok table rest ↔
      NoIndexAhead rest ∧
        ∃ spelled, List.Forall₂ SpellsIndex spelled (table.targets ++ [table.defaultTarget]) ∧
          spelled ++ rest = words := by
  rw [branchTable, Reader.bind_eq_ok_iff, ← indices_eq_ok_iff]
  constructor
  · rintro ⟨labels, mid, hlabels, hlast⟩
    cases hdefault : labels.getLast? with
    | none =>
      rw [hdefault] at hlast
      cases hlast
    | some defaultTarget =>
      rw [hdefault] at hlast
      cases hlast
      rwa [List.dropLast_append_getLast? defaultTarget hdefault]
  · intro h
    refine ⟨_, rest, h, ?_⟩
    rw [List.getLast?_concat, List.dropLast_concat]
    rfl

/-- What is read as an immediate of a shape has this shape, and is spelled by what is taken. -/
theorem spelledBy_of_immediate_eq_ok {opcode : String} {shape : Shape} {value : Immediate}
    (h : immediate opcode shape words = .ok value rest) :
    value.shape = shape ∧ (shape = .branchTable → NoIndexAhead rest) ∧
      ∃ spelled, value.SpelledBy spelled ∧ spelled ++ rest = words := by
  cases shape with
  | varUint1 =>
    obtain ⟨word, flag, hflag, rfl, rfl⟩ := map_operand_eq_ok_iff.mp h
    obtain ⟨hword, hvalue⟩ := flag?_eq_some_iff.mp hflag
    exact ⟨rfl, nofun, [word], .varUint1 hword hvalue, rfl⟩
  | varUint32 =>
    obtain ⟨word, n, hn, rfl, rfl⟩ := map_operand_eq_ok_iff.mp h
    exact ⟨rfl, nofun, [word], .varUint32 (index?_eq_some_iff.mp hn), rfl⟩
  | varInt32 =>
    obtain ⟨word, i, hi, rfl, rfl⟩ := map_operand_eq_ok_iff.mp h
    exact ⟨rfl, nofun, [word], .varInt32 (int32?_eq_some_iff.mp hi), rfl⟩
  | varInt64 =>
    obtain ⟨word, i, hi, rfl, rfl⟩ := map_operand_eq_ok_iff.mp h
    exact ⟨rfl, nofun, [word], .varInt64 (int64?_eq_some_iff.mp hi), rfl⟩
  | uint32 =>
    obtain ⟨word, bytes, hbytes, rfl, rfl⟩ := map_operand_eq_ok_iff.mp h
    exact ⟨rfl, nofun, [word], .uint32 (float?_eq_some_iff.mp hbytes), rfl⟩
  | uint64 =>
    obtain ⟨word, bytes, hbytes, rfl, rfl⟩ := map_operand_eq_ok_iff.mp h
    exact ⟨rfl, nofun, [word], .uint64 (float?_eq_some_iff.mp hbytes), rfl⟩
  | blockType =>
    obtain ⟨word, type, htype, rfl, rfl⟩ := map_operand_eq_ok_iff.mp h
    obtain rfl := LanguageType.ofName?_eq_some_iff.mp htype
    exact ⟨rfl, nofun, [type.name], .blockType type, rfl⟩
  | branchTable =>
    obtain ⟨table, htable, rfl⟩ := Reader.map_eq_ok_iff.mp h
    obtain ⟨hrest, spelled, hspelled, hwords⟩ := branchTable_eq_ok_iff.mp htable
    exact ⟨rfl, fun _ ↦ hrest, spelled, .branchTable hspelled, hwords⟩
  | callIndirect =>
    obtain ⟨typeIndex, _, htype, ⟨⟩⟩ := Reader.bind_eq_ok_iff.mp h
    obtain ⟨word, hword, rfl⟩ := operand_eq_ok_iff.mp htype
    exact ⟨rfl, nofun, [word], .callIndirect (index?_eq_some_iff.mp hword), rfl⟩
  | memory =>
    obtain ⟨flags, mid, hflags, hlater⟩ := Reader.bind_eq_ok_iff.mp h
    obtain ⟨offset, _, hoffset, ⟨⟩⟩ := Reader.bind_eq_ok_iff.mp hlater
    obtain ⟨first, hfirst, rfl⟩ := operand_eq_ok_iff.mp hflags
    obtain ⟨second, hsecond, rfl⟩ := operand_eq_ok_iff.mp hoffset
    exact ⟨rfl, nofun, [first, second],
      .memory (index?_eq_some_iff.mp hfirst) (index?_eq_some_iff.mp hsecond), rfl⟩

/-- What spells an immediate is read as this immediate. -/
theorem immediate_append_eq_ok (opcode : String) {value : Immediate} {spelled : List String}
    (hspelled : value.SpelledBy spelled) (hend : value.shape = .branchTable → NoIndexAhead rest) :
    immediate opcode value.shape (spelled ++ rest) = .ok value rest := by
  cases hspelled with
  | @varUint1 value word hword hvalue =>
    exact map_operand_eq_ok_iff.mpr ⟨word, value, flag?_eq_some_iff.mpr ⟨hword, hvalue⟩, rfl, rfl⟩
  | @varUint32 value word hword =>
    exact map_operand_eq_ok_iff.mpr ⟨word, value, index?_eq_some_iff.mpr hword, rfl, rfl⟩
  | @varInt32 value word hword =>
    exact map_operand_eq_ok_iff.mpr ⟨word, value, int32?_eq_some_iff.mpr hword, rfl, rfl⟩
  | @varInt64 value word hword =>
    exact map_operand_eq_ok_iff.mpr ⟨word, value, int64?_eq_some_iff.mpr hword, rfl, rfl⟩
  | @uint32 bytes word hword =>
    exact map_operand_eq_ok_iff.mpr ⟨word, bytes, float?_eq_some_iff.mpr hword, rfl, rfl⟩
  | @uint64 bytes word hword =>
    exact map_operand_eq_ok_iff.mpr ⟨word, bytes, float?_eq_some_iff.mpr hword, rfl, rfl⟩
  | blockType type =>
    exact map_operand_eq_ok_iff.mpr ⟨type.name, type, LanguageType.ofName?_name type, rfl, rfl⟩
  | @branchTable table _ hlabels =>
    exact Reader.map_eq_ok_iff.mpr
      ⟨table, branchTable_eq_ok_iff.mpr ⟨hend rfl, spelled, hlabels, rfl⟩, rfl⟩
  | @callIndirect typeIndex word hword =>
    exact Reader.bind_eq_ok_iff.mpr
      ⟨typeIndex, rest, operand_eq_ok_iff.mpr ⟨word, index?_eq_some_iff.mpr hword, rfl⟩, rfl⟩
  | @memory access first second hfirst hsecond =>
    exact Reader.bind_eq_ok_iff.mpr
      ⟨access.flags, second :: rest,
        operand_eq_ok_iff.mpr ⟨first, index?_eq_some_iff.mpr hfirst, rfl⟩,
        Reader.bind_eq_ok_iff.mpr ⟨access.offset, rest,
          operand_eq_ok_iff.mpr ⟨second, index?_eq_some_iff.mpr hsecond, rfl⟩, rfl⟩⟩

/-! ### Instructions -/

/-- A word is read as the instruction of an opcode in the table. -/
theorem opcode_eq_ok_iff {named : Instruction} :
    opcode word = .ok named ↔
      named.HasOpcode ∧ named.immediate = none ∧ named.fullName = word := by
  have hparts : opcode word = .ok named ↔
      (∃ byte, Opcode.byte? word = some byte) ∧ Instruction.ofFullName? word = some named := by
    unfold opcode
    cases hsplit : Instruction.splitAtDot? word with
    | none => cases Opcode.byte? word <;> cases Instruction.ofFullName? word <;> simp
    | some parts =>
      -- A type that is unknown is refused first, and is the type of no instruction either.
      have hbase : Instruction.ofFullName? word =
          (ValueType.ofName? parts.1).map (Instruction.typed · parts.2) := by
        rw [Instruction.ofFullName?, hsplit]
      rw [hbase]
      cases htype : ValueType.ofName? parts.1 <;> cases Opcode.byte? word <;> simp [htype]
  have hlisted : (∃ byte, Opcode.byte? word = some byte) ↔ ∃ byte, (byte, word) ∈ Opcode.table :=
    exists_congr fun _ ↦ ⟨Opcode.mem_table_of_byte?, Opcode.byte?_of_mem_table⟩
  rw [hparts, hlisted, Instruction.ofFullName?_eq_some_iff]
  constructor
  · rintro ⟨hbyte, rfl, hseparated, himmediate⟩
    exact ⟨⟨hbyte, hseparated⟩, himmediate, rfl⟩
  · rintro ⟨hopcode, himmediate, rfl⟩
    exact ⟨hopcode.listed, rfl, hopcode.separated, himmediate⟩

theorem instruction_eq_ok_iff {instruction : Instruction} :
    Listing.instruction words = .ok instruction rest ↔
      instruction.EndsBefore rest ∧
        ∃ group, instruction.SpelledBy group ∧ group ++ rest = words := by
  simp only [Listing.instruction, Reader.bind_eq_ok_iff, Reader.next_eq_ok_iff]
  constructor
  · rintro ⟨word, mid, rfl, h⟩
    cases hnamed : opcode word with
    | error e =>
      rw [hnamed] at h
      cases h
    | ok named =>
      obtain ⟨hopcode, himmediate, rfl⟩ := opcode_eq_ok_iff.mp hnamed
      simp only [hnamed] at h
      cases hshape : named.shape? with
      | none =>
        rw [hshape] at h
        cases h
        refine ⟨fun htable ↦ ?_, _, .plain hopcode hshape himmediate, rfl⟩
        cases hshape.symm.trans htable
      | some shape =>
        rw [hshape] at h
        obtain ⟨value, hvalue, rfl⟩ := Reader.map_eq_ok_iff.mp h
        obtain ⟨rfl, hend, operands, hoperands, rfl⟩ := spelledBy_of_immediate_eq_ok hvalue
        exact ⟨fun htable ↦ hend (Option.some.inj (hshape.symm.trans htable)), _,
          .operands ⟨hopcode.listed, hopcode.separated⟩ hshape rfl hoperands, rfl⟩
  · rintro ⟨hend, group, hgroup, rfl⟩
    cases hgroup with
    | plain hopcode hshape himmediate =>
      refine ⟨instruction.fullName, rest, rfl, ?_⟩
      rw [opcode_eq_ok_iff.mpr ⟨hopcode, himmediate, rfl⟩]
      simp only [hshape]
      rfl
    | @operands value operands hopcode hshape himmediate hoperands =>
      refine ⟨instruction.fullName, operands ++ rest, rfl, ?_⟩
      have hnamed : opcode instruction.fullName = .ok { instruction with immediate := none } :=
        opcode_eq_ok_iff.mpr ⟨⟨hopcode.listed, hopcode.separated⟩, rfl, rfl⟩
      have hbare : ({ instruction with immediate := none } : Instruction).shape? =
          some value.shape := hshape
      simp only [hnamed, hbare]
      refine Reader.map_eq_ok_iff.mpr ⟨value, immediate_append_eq_ok _ hoperands ?_, ?_⟩
      · intro htable
        exact hend (hshape.trans (congrArg some htable))
      · rw [Instruction.withImmediate, ← himmediate]

/-- An instruction takes its name at least. -/
theorem advances_instruction : Reader.Advances Listing.instruction := by
  intro input a left h
  obtain ⟨-, group, hgroup, rfl⟩ := instruction_eq_ok_iff.mp h
  have hpos := List.length_pos_iff.mpr hgroup.ne_nil
  rw [List.length_append]
  omega

/-! ### Texts -/

/-- The instructions are read one after the other until no word is left. -/
theorem untilEnd_instruction_eq_ok_iff {code : List Instruction} :
    Reader.untilEnd Listing.instruction words = .ok code rest ↔ rest = [] ∧ Lists words code := by
  constructor
  · intro h
    induction code generalizing words with
    | nil =>
      cases words with
      | nil =>
        cases h
        exact ⟨rfl, .nil⟩
      | cons word behind =>
        rw [advances_instruction.untilEnd_eq_bind (List.cons_ne_nil word behind)] at h
        obtain ⟨first, mid, -, hlater⟩ := Reader.bind_eq_ok_iff.mp h
        obtain ⟨others, left, -, ⟨⟩⟩ := Reader.bind_eq_ok_iff.mp hlater
    | cons instruction later ih =>
      cases words with
      | nil => cases h
      | cons word behind =>
        rw [advances_instruction.untilEnd_eq_bind (List.cons_ne_nil word behind)] at h
        obtain ⟨first, mid, hfirst, hlater⟩ := Reader.bind_eq_ok_iff.mp h
        obtain ⟨others, left, hothers, ⟨⟩⟩ := Reader.bind_eq_ok_iff.mp hlater
        obtain ⟨rfl, hlists⟩ := ih hothers
        obtain ⟨hend, group, hgroup, hwords⟩ := instruction_eq_ok_iff.mp hfirst
        exact ⟨rfl, hwords ▸ .cons hgroup hend hlists⟩
  · rintro ⟨rfl, hlists⟩
    induction hlists with
    | nil => rfl
    | @cons group rest instruction later hgroup hend _ ih =>
      have hne : group ++ rest ≠ [] := fun hnil ↦ hgroup.ne_nil (List.append_eq_nil_iff.mp hnil).1
      rw [advances_instruction.untilEnd_eq_bind hne]
      exact Reader.bind_eq_ok_iff.mpr ⟨instruction, rest,
        instruction_eq_ok_iff.mpr ⟨hend, group, hgroup, rfl⟩,
        Reader.bind_eq_ok_iff.mpr ⟨later, [], ih, rfl⟩⟩

theorem parse_eq_ok_iff_lists_words {text : String} {code : List Instruction} :
    parse text = .ok code ↔ Lists (Listing.words text) code := by
  rw [parse, Reader.value_eq_ok_iff]
  simp only [untilEnd_instruction_eq_ok_iff, exists_eq_left]

/-- A text is a listing of instructions if and only if its words are theirs. -/
theorem parse_eq_ok_iff {text : String} {code : List Instruction} :
    parse text = .ok code ↔
      ∃ tokens : List String, Text.Runs text.toList (tokens.map String.toList) ∧
        Lists tokens code := by
  rw [parse_eq_ok_iff_lists_words]
  constructor
  · intro h
    refine ⟨_, Text.runs_iff.mpr ?_, h⟩
    simp [Listing.words]
  · rintro ⟨tokens, hruns, hlists⟩
    rw [Listing.words, Text.runs_iff.mp hruns]
    simpa using hlists

-- A numeral belongs to the branch table in front of it, but not across another opcode.
example : parse "br_table 0 1 drop" =
      .ok [⟨"br_table", none, some (.branchTable ⟨[0], 1⟩)⟩, ⟨"drop", none, none⟩] ∧
    parse "br_table 0 drop 1" = .error (.unknownOpcode "1") := by
  decide +kernel

end Listing

end WasmMeter
