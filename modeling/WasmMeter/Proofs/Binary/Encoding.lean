import WasmMeter.Proofs.Binary.Forms
import WasmMeter.Proofs.Binary.Writes
import WasmMeter.Proofs.Opcode

/-!
# Encoders write shortest forms

Every encoder writes the shortest form of its node, provided that the node has a form at all
(`Instruction.writesShortest`, `FunctionBody.writesShortest`, `Section.writesShortest`). For modules
this is `Module.writesShortest`.

Only two choices are left to an encoder: how numbers are padded, and with what opcode byte an
instruction is written. A byte is determined by the name of the opcode
(`Instruction.opcodeForms_eq`), so all freedom is in the numbers.
-/

set_option autoImplicit false

namespace WasmMeter

open Leb128

/-! ### Types -/

theorem writesShortest_varUint32 (n : UInt32) : WritesShortest (.varUint32 n) (indexForms n) :=
  .unsigned .w32 n.toNat

theorem writesShortest_countedBytes (content : Bytes) :
    WritesShortest (.countedBytes content) (sizedForms content) :=
  .bind (.unsigned .w32 content.length) (.bytes content)

theorem writesShortest_countedText (text : String) :
    WritesShortest (.countedText text) (textForms text) := writesShortest_countedBytes _

theorem ValueType.writesShortest (type : ValueType) : WritesShortest type.encode type.forms :=
  .byte type.toByte

theorem LanguageType.writesShortest (type : LanguageType) : WritesShortest type.encode type.forms :=
  .byte type.toByte

theorem ExternalKind.writesShortest (kind : ExternalKind) : WritesShortest kind.encode kind.forms :=
  .byte kind.toByte

theorem Limits.writesShortest (limits : Limits) : WritesShortest limits.encode limits.forms := by
  obtain ⟨initial, _ | maximum⟩ := limits
  · have hforms : forms ⟨initial, none⟩ = unsignedForms .w32 0 * indexForms initial := by
      rw [forms, optionForms, Option.elim_none, mul_one]
      rfl
    rw [hforms]
    exact .bind (.unsigned .w32 0) (writesShortest_varUint32 initial)
  · exact .bind (.unsigned .w32 1)
      (.bind (writesShortest_varUint32 initial) (writesShortest_varUint32 maximum))

theorem TableType.writesShortest (type : TableType) : WritesShortest type.encode type.forms :=
  .bind type.elementType.writesShortest type.limits.writesShortest

theorem GlobalType.writesShortest (type : GlobalType) : WritesShortest type.encode type.forms :=
  .bind type.contentType.writesShortest (.byte _)

theorem FuncType.writesShortest (type : FuncType) : WritesShortest type.encode type.forms := by
  refine .bind type.form.writesShortest
    (.bind (.counted ValueType.writesShortest type.params) ?_)
  cases type.result with
  | none =>
    have hforms : resultForms none = unsignedForms .w32 0 := by
      rw [resultForms, optionForms, Option.elim_none, mul_one]
      rfl
    rw [hforms]
    exact .unsigned .w32 0
  | some result => exact .bind (.unsigned .w32 1) result.writesShortest

/-! ### Instructions -/

theorem BranchTable.writesShortest (table : BranchTable) :
    WritesShortest table.encode table.forms :=
  .bind (.counted writesShortest_varUint32 table.targets)
    (writesShortest_varUint32 table.defaultTarget)

theorem IndirectCall.writesShortest (call : IndirectCall) :
    WritesShortest call.encode call.forms :=
  .bind (writesShortest_varUint32 call.typeIndex) (.unsigned .w1 call.reserved.toNat)

theorem MemoryAccess.writesShortest (access : MemoryAccess) :
    WritesShortest access.encode access.forms :=
  .bind (writesShortest_varUint32 access.flags) (writesShortest_varUint32 access.offset)

theorem Immediate.writesShortest (immediate : Immediate) :
    WritesShortest immediate.encode immediate.forms := by
  cases immediate with
  | varUint1 value => exact .unsigned .w1 value.toNat
  | varUint32 value => exact writesShortest_varUint32 value
  | varInt32 value => exact .signed .w32 value.toInt
  | varInt64 value => exact .signed .w64 value.toInt
  | uint32 bytes => exact .bytes bytes.toList
  | uint64 bytes => exact .bytes bytes.toList
  | blockType type => exact type.writesShortest
  | branchTable table => exact table.writesShortest
  | callIndirect call => exact call.writesShortest
  | memory access => exact access.writesShortest

namespace Instruction

/-- The byte with which an instruction is written is the only one from which it is read. -/
theorem byte?_fullName_of_opcode {byte : UInt8} {instruction : Instruction}
    (h : (Opcode.name? byte).bind ofFullName? = some instruction.bare) :
    Opcode.byte? instruction.fullName = some byte := by
  obtain ⟨name, hname, hbase⟩ := Option.bind_eq_some_iff.mp h
  have hfull : instruction.bare.fullName = name := fullName_of_ofFullName? hbase
  show Opcode.byte? instruction.bare.fullName = some byte
  rw [hfull]
  exact Opcode.byte?_eq_some_iff.mpr hname

/-- An instruction that can be read has one opcode byte. -/
theorem opcodeForms_eq {byte : UInt8} {instruction : Instruction}
    (h : (Opcode.name? byte).bind ofFullName? = some instruction.bare) :
    instruction.opcodeForms = {[byte]} := by
  ext word
  constructor
  · rintro ⟨other, hother, rfl⟩
    have hbyte := byte?_fullName_of_opcode h
    rw [byte?_fullName_of_opcode hother] at hbyte
    cases hbyte
    rfl
  · rintro rfl
    exact ⟨byte, h, rfl⟩

theorem writesShortest_immediate (instruction : Instruction) :
    WritesShortest instruction.encodeImmediate instruction.immediateForms := by
  rintro v ⟨hmatch, hv⟩
  have hforms : instruction.immediateForms =
      optionForms Immediate.forms instruction.immediate := by
    ext word
    exact and_iff_right hmatch
  rw [hforms, encodeImmediate, if_pos hmatch]
  cases himmediate : instruction.immediate with
  | none =>
    rw [himmediate] at hv
    exact WritesShortest.pure v hv
  | some immediate =>
    rw [himmediate] at hv
    exact immediate.writesShortest v hv

/-- An instruction is written with its opcode byte and the shortest immediate. -/
theorem writesShortest (instruction : Instruction) :
    WritesShortest instruction.encode instruction.forms := by
  intro v hv
  obtain ⟨_, ⟨byte, hbyte, -⟩, -⟩ := Language.mem_mul.mp hv
  rw [forms, opcodeForms_eq hbyte] at hv ⊢
  rw [encode, byte?_fullName_of_opcode hbyte]
  exact WritesShortest.bind (.byte byte) instruction.writesShortest_immediate v hv

theorem writesShortest_initializer (instruction : Instruction) :
    WritesShortest instruction.encodeInitializer instruction.initializerForms :=
  .bind instruction.writesShortest (.byte endByte)

end Instruction

/-! ### Entries -/

theorem Imported.writesShortest (item : Imported) :
    WritesShortest item.encode (item.kind.forms * item.forms) := by
  cases item with
  | function typeIndex =>
    exact .bind (ExternalKind.writesShortest .function) (writesShortest_varUint32 typeIndex)
  | table type => exact .bind (ExternalKind.writesShortest .table) type.writesShortest
  | memory limits => exact .bind (ExternalKind.writesShortest .memory) limits.writesShortest
  | global type => exact .bind (ExternalKind.writesShortest .global) type.writesShortest

theorem Import.writesShortest (entry : Import) : WritesShortest entry.encode entry.forms :=
  .bind (writesShortest_countedText entry.moduleName)
    (.bind (writesShortest_countedText entry.field) entry.item.writesShortest)

theorem Global.writesShortest (entry : Global) : WritesShortest entry.encode entry.forms :=
  .bind entry.type.writesShortest entry.init.writesShortest_initializer

theorem Export.writesShortest (entry : Export) : WritesShortest entry.encode entry.forms :=
  .bind (writesShortest_countedText entry.field)
    (.bind entry.kind.writesShortest (writesShortest_varUint32 entry.index))

theorem ElementSegment.writesShortest (segment : ElementSegment) :
    WritesShortest segment.encode segment.forms :=
  .bind (writesShortest_varUint32 segment.table)
    (.bind segment.offset.writesShortest_initializer
      (.counted writesShortest_varUint32 segment.functions))

theorem LocalGroup.writesShortest (group : LocalGroup) : WritesShortest group.encode group.forms :=
  .bind (writesShortest_varUint32 group.count) group.type.writesShortest

/-- The length of a body is that of its shortest content. -/
theorem FunctionBody.writesShortest (body : FunctionBody) : WritesShortest body.encode body.forms :=
  .region (.bind (.counted LocalGroup.writesShortest body.locals)
    (.each Instruction.writesShortest body.code))

theorem DataSegment.writesShortest (segment : DataSegment) :
    WritesShortest segment.encode segment.forms :=
  .bind (writesShortest_varUint32 segment.memory)
    (.bind segment.offset.writesShortest_initializer (writesShortest_countedBytes segment.data))

/-! ### Sections and modules -/

namespace Section

theorem writesShortest_content (s : Section) :
    WritesShortest s.encodeContent s.contentForms := by
  cases s with
  | custom name payload => exact .bind (writesShortest_countedText name) (.bytes payload)
  | types entries => exact .counted FuncType.writesShortest entries
  | imports entries => exact .counted Import.writesShortest entries
  | functions typeIndices => exact .counted writesShortest_varUint32 typeIndices
  | tables entries => exact .counted TableType.writesShortest entries
  | memories entries => exact .counted Limits.writesShortest entries
  | globals entries => exact .counted Global.writesShortest entries
  | exports entries => exact .counted Export.writesShortest entries
  | start function => exact writesShortest_varUint32 function
  | elements segments => exact .counted ElementSegment.writesShortest segments
  | code bodies => exact .counted FunctionBody.writesShortest bodies
  | data segments => exact .counted DataSegment.writesShortest segments

/-- The length of a section is that of its shortest content. -/
theorem writesShortest (s : Section) : WritesShortest s.encode s.forms :=
  .bind (.byte s.id.toByte) (.region s.writesShortest_content)

end Section

theorem Preamble.writesShortest (preamble : Preamble) :
    WritesShortest preamble.encode preamble.forms :=
  .bind (.bytes preamble.magic.toList) (.bytes _)

namespace Module

/-- A module is written as the shortest of its forms. -/
theorem writesShortest (m : Module) : WritesShortest m.encoder m.forms :=
  .bind m.preamble.writesShortest (.each Section.writesShortest m.sections)

/-! ### Room made in advance -/

/-- A hint that is more than an output can have stops the program, and any other one changes
nothing. -/
theorem encode_eq (m : Module) (sizeHint : Nat) :
    m.encode sizeHint =
      if sizeHint ≤ Output.maxSize then (m.encoder.run .empty).mapError .refused
      else .error (.stopped .capacity) := by
  rw [encode, Output.withCapacity_eq]
  split <;> rfl

theorem encode_eq_ok_iff {m : Module} {sizeHint : Nat} {bytes : Bytes} :
    m.encode sizeHint = .ok bytes ↔
      sizeHint ≤ Output.maxSize ∧ m.encoder.run .empty = .ok bytes := by
  rw [encode_eq]
  by_cases hroom : sizeHint ≤ Output.maxSize
  · rw [if_pos hroom]
    cases m.encoder.run .empty <;> simp [Except.mapError, hroom]
  · simp [hroom]

theorem encode_eq_ok_of_writes {m : Module} {bytes : Bytes} (h : Writes m.encoder bytes)
    {sizeHint : Nat} (hroom : sizeHint ≤ Output.maxSize) : m.encode sizeHint = .ok bytes :=
  encode_eq_ok_iff.mpr ⟨hroom, h.run⟩

theorem encode_eq_stopped {sizeHint : Nat} (hroom : Output.maxSize < sizeHint) (m : Module) :
    m.encode sizeHint = .error (.stopped .capacity) := by
  rw [encode_eq, if_neg hroom.not_ge]

end Module

end WasmMeter
