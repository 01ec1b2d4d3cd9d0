import WasmMeter.Proofs.Binary.WrittenForms
import WasmMeter.Proofs.Listing.Reading

/-!
# Listings have a binary form

What a listing spells can be written in binary and is read again. An instruction that is spelled has
an opcode, an immediate of its shape and a clear or a set flag, so it is canonical
(`Instruction.SpelledBy.canonical`); the numbers in it have room in the binary format because they
have room in their words. What has no bound in a listing is the number of targets of a branch table.
If these can be counted, every instruction has a form (`Instruction.Canonical.exists_mem_forms`),
and what is written is the shortest one.
-/

set_option autoImplicit false

namespace WasmMeter

open Leb128

/-! ### Canonical instructions have forms -/

theorem exists_mem_unsignedForms (width : Width) {n : Nat} (hn : n < 2 ^ width.bits) :
    ∃ word, word ∈ unsignedForms width n :=
  ⟨_, (isShortest_encodeUnsigned hn).mem⟩

theorem exists_mem_indexForms (n : UInt32) : ∃ word, word ∈ indexForms n :=
  exists_mem_unsignedForms .w32 n.toNat_lt

theorem exists_mem_signedForms (width : Width) {i : Int} (hlower : -2 ^ (width.bits - 1) ≤ i)
    (hupper : i < 2 ^ (width.bits - 1)) : ∃ word, word ∈ signedForms width i :=
  ⟨_, (isShortest_encodeSigned hlower hupper).mem⟩

/-- The number of targets in a branch table can be counted. -/
def Immediate.Countable (immediate : Immediate) : Prop :=
  ∀ table, immediate = .branchTable table → table.targets.length < 2 ^ 32

/-- An immediate has a form if its flag is one bit and its targets can be counted. -/
theorem Immediate.exists_mem_forms {immediate : Immediate}
    (hflag : ∀ flag ∈ immediate.flag?, flag ≤ 1) (hcount : immediate.Countable) :
    ∃ word, word ∈ immediate.forms := by
  have hbit {flag : UInt8} (hle : flag ≤ 1) : ∃ word, word ∈ unsignedForms .w1 flag.toNat :=
    exists_mem_unsignedForms .w1 (Nat.lt_succ_of_le (UInt8.le_iff_toNat_le.mp hle))
  cases immediate with
  | varUint1 value => exact hbit (hflag value rfl)
  | varUint32 value => exact exists_mem_indexForms value
  | varInt32 value => exact exists_mem_signedForms .w32 value.le_toInt value.toInt_lt
  | varInt64 value => exact exists_mem_signedForms .w64 value.le_toInt value.toInt_lt
  | uint32 bytes => exact ⟨bytes.toList, rfl⟩
  | uint64 bytes => exact ⟨bytes.toList, rfl⟩
  | blockType type => exact ⟨[type.toByte], rfl⟩
  | branchTable table =>
    have htargets : ∃ word, word ∈ inTurn indexForms table.targets :=
      exists_mem_inTurn_iff.mpr fun target _ ↦ exists_mem_indexForms target
    have hcounted : ∃ word, word ∈ countedForms indexForms table.targets :=
      exists_mem_mul_iff.mpr ⟨exists_mem_unsignedForms .w32 (hcount table rfl), htargets⟩
    exact exists_mem_mul_iff.mpr ⟨hcounted, exists_mem_indexForms table.defaultTarget⟩
  | callIndirect call =>
    exact exists_mem_mul_iff.mpr
      ⟨exists_mem_indexForms call.typeIndex, hbit (hflag call.reserved rfl)⟩
  | memory access =>
    exact exists_mem_mul_iff.mpr
      ⟨exists_mem_indexForms access.flags, exists_mem_indexForms access.offset⟩

namespace Instruction

theorem Canonical.exists_mem_forms {instruction : Instruction} (h : instruction.Canonical)
    (hcount : ∀ immediate ∈ instruction.immediate, immediate.Countable) :
    ∃ word, word ∈ instruction.forms := by
  obtain ⟨byte, hbase⟩ := exists_opcode_iff.mp h.named
  refine exists_mem_mul_iff.mpr ⟨⟨[byte], byte, hbase, rfl⟩, ?_⟩
  cases himmediate : instruction.immediate with
  | none =>
    refine ⟨[], h.shaped, ?_⟩
    rw [himmediate]
    exact Language.nil_mem_one
  | some immediate =>
    obtain ⟨word, hword⟩ :=
      immediate.exists_mem_forms (h.flagged immediate himmediate) (hcount immediate himmediate)
    refine ⟨word, h.shaped, ?_⟩
    rw [himmediate]
    exact hword

/-- Instructions that have forms are written, and read from what is written. -/
theorem exists_writes_encodeCode {code : List Instruction}
    (h : ∀ instruction ∈ code, ∃ word, word ∈ instruction.forms) :
    ∃ bytes, Writes (encodeCode code) bytes ∧ decodeCode bytes = .ok code [] := by
  obtain ⟨word, hword⟩ := exists_mem_inTurn_iff.mpr h
  obtain ⟨bytes, hwrites, hshortest⟩ := WritesShortest.each writesShortest code word hword
  exact ⟨bytes, hwrites, (reads_code.eq_ok_nil_iff rfl).mpr ⟨trivial, hshortest.mem⟩⟩

/-! ### What is spelled is canonical -/

theorem HasOpcode.named {instruction : Instruction} (h : instruction.HasOpcode) :
    ∃ entry ∈ Opcode.table, ofFullName? entry.2 = some instruction.bare := by
  obtain ⟨byte, hentry⟩ := h.listed
  exact ⟨_, hentry, ofFullName?_fullName h.separated⟩

theorem SpelledBy.canonical {instruction : Instruction} {group : List String}
    (h : instruction.SpelledBy group) : instruction.Canonical := by
  cases h with
  | plain hopcode hshape himmediate =>
    refine ⟨hopcode.named, by rw [himmediate, hshape]; rfl, ?_⟩
    rw [himmediate]
    exact nofun
  | @operands immediate operands hopcode hshape himmediate hoperands =>
    refine ⟨hopcode.named, by rw [himmediate, hshape]; rfl, ?_⟩
    rw [himmediate]
    rintro _ ⟨⟩ flag hflag
    cases hoperands with
    | varUint1 hword hvalue =>
      cases hflag
      rcases hvalue with rfl | rfl <;> decide
    | callIndirect =>
      cases hflag
      show (0 : UInt8) ≤ 1
      decide
    | _ => cases hflag

end Instruction

namespace Listing

theorem Lists.canonical {words : List String} {code : List Instruction} (h : Lists words code) :
    ∀ instruction ∈ code, instruction.Canonical := by
  induction h with
  | nil => exact nofun
  | cons hgroup _ _ ih => exact List.forall_mem_cons.mpr ⟨hgroup.canonical, ih⟩

/-- The instructions of a text are written in binary and read again from what is written, if the
targets of each branch table can be counted. -/
theorem exists_writes_of_parse_eq_ok {text : String} {code : List Instruction}
    (hparse : parse text = .ok code)
    (htables : ∀ instruction ∈ code, ∀ table,
      instruction.immediate = some (.branchTable table) → table.targets.length < 2 ^ 32) :
    ∃ bytes, Writes (Instruction.encodeCode code) bytes ∧
      Instruction.decodeCode bytes = .ok code [] := by
  have hcanonical := (parse_eq_ok_iff_lists_words.mp hparse).canonical
  refine Instruction.exists_writes_encodeCode fun instruction hmem ↦ ?_
  refine (hcanonical instruction hmem).exists_mem_forms fun immediate himmediate table htable ↦ ?_
  exact htables instruction hmem table (himmediate.trans (congrArg some htable))

/-- A listing with immediates of all shapes, some of them at the ends of their ranges. -/
def everyShapeText : String :=
  "br_table 0 1 4294967295 br 2 i32.const -2147483648 i64.const 9223372036854775807 " ++
    "f32.const -nan f64.const .1 grow_memory +1 i32.wrap/i64 call_indirect 3 " ++
    "i64.load8_u 0 8 block func"

/-- The instructions of the listing. -/
def everyShape : List Instruction :=
  [⟨"br_table", none, some (.branchTable ⟨[0, 1], 0xffffffff⟩)⟩,
    ⟨"br", none, some (.varUint32 2)⟩, ⟨"const", some .i32, some (.varInt32 Int32.minValue)⟩,
    ⟨"const", some .i64, some (.varInt64 Int64.maxValue)⟩,
    ⟨"const", some .f32, some (.uint32 #v[0x00, 0x00, 0xc0, 0xff])⟩,
    ⟨"const", some .f64, some (.uint64 #v[0x9a, 0x99, 0x99, 0x99, 0x99, 0x99, 0xb9, 0x3f])⟩,
    ⟨"grow_memory", none, some (.varUint1 1)⟩, ⟨"wrap/i64", some .i32, none⟩,
    ⟨"call_indirect", none, some (.callIndirect ⟨3, 0⟩)⟩,
    ⟨"load8_u", some .i64, some (.memory ⟨0, 8⟩)⟩, ⟨"block", none, some (.blockType .func)⟩]

theorem exists_writes_everyShape :
    parse everyShapeText = .ok everyShape ∧
      (∀ instruction ∈ everyShape, ∀ table,
        instruction.immediate = some (.branchTable table) → table.targets.length < 2 ^ 32) ∧
      ∃ bytes, Writes (Instruction.encodeCode everyShape) bytes ∧
        Instruction.decodeCode bytes = .ok everyShape [] := by
  have hparse : parse everyShapeText = .ok everyShape := by decide +kernel
  have htables : ∀ instruction ∈ everyShape, ∀ table,
      instruction.immediate = some (.branchTable table) → table.targets.length < 2 ^ 32 := by
    simp [everyShape]
  exact ⟨hparse, htables, exists_writes_of_parse_eq_ok hparse htables⟩

end Listing

end WasmMeter
