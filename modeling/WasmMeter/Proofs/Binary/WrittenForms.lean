import WasmMeter.Proofs.Binary.Encoding
import WasmMeter.Proofs.Binary.SectionDecoding

/-!
# What is written is a form

Every encoder writes a form of its node, unless it writes so many bytes that they cannot be counted
(`WritesForm`). Numbers of entries and of bytes have thirty-two bits, and what is counted is never
longer than what is written: an entry takes a byte at least (`FuncType.nil_notMem_forms` and the
lemmas like it). So one bound on the payload of a section is enough for all counts in it
(`Section.writesForm_content`).

Instructions are the exception. One has to be `Instruction.Canonical`: the name and the type have to
be those of an opcode, the immediate has to have the shape of the opcode, and a flag has to be one
bit.
-/

set_option autoImplicit false

namespace WasmMeter

open Leb128

/-! ### Forms are not empty -/

variable {α : Type}

theorem nil_notMem_mul {L M : Language UInt8} (hL : [] ∉ L) : [] ∉ L * M := by
  intro h
  obtain ⟨x, hx, y, -, happend⟩ := Language.mem_mul.mp h
  rw [(List.append_eq_nil_iff.mp happend).1] at hx
  exact hL hx

theorem nil_notMem_unsignedForms (width : Width) (n : Nat) : [] ∉ unsignedForms width n := by
  rintro ⟨hgroups, -⟩
  exact absurd hgroups.length_pos (Nat.lt_irrefl 0)

theorem nil_notMem_indexForms (n : UInt32) : [] ∉ indexForms n :=
  nil_notMem_unsignedForms .w32 n.toNat

theorem nil_notMem_textForms (text : String) : [] ∉ textForms text :=
  nil_notMem_mul (nil_notMem_unsignedForms .w32 _)

theorem nil_notMem_byte (b : UInt8) : [] ∉ ({[b]} : Language UInt8) := fun h ↦ nomatch h

theorem nil_notMem_regionForms (contents : Language UInt8) : [] ∉ regionForms contents := by
  rintro ⟨content, -, h⟩
  exact nil_notMem_mul (nil_notMem_unsignedForms .w32 content.length) h

theorem ValueType.nil_notMem_forms (type : ValueType) : [] ∉ type.forms :=
  nil_notMem_byte type.toByte

theorem Limits.nil_notMem_forms (limits : Limits) : [] ∉ limits.forms :=
  nil_notMem_mul (nil_notMem_indexForms _)

theorem TableType.nil_notMem_forms (type : TableType) : [] ∉ type.forms :=
  nil_notMem_mul (nil_notMem_byte type.elementType.toByte)

theorem GlobalType.nil_notMem_forms (type : GlobalType) : [] ∉ type.forms :=
  nil_notMem_mul type.contentType.nil_notMem_forms

theorem FuncType.nil_notMem_forms (type : FuncType) : [] ∉ type.forms :=
  nil_notMem_mul (nil_notMem_byte type.form.toByte)

theorem Import.nil_notMem_forms (entry : Import) : [] ∉ entry.forms :=
  nil_notMem_mul (nil_notMem_textForms entry.moduleName)

theorem Global.nil_notMem_forms (entry : Global) : [] ∉ entry.forms :=
  nil_notMem_mul entry.type.nil_notMem_forms

theorem Export.nil_notMem_forms (entry : Export) : [] ∉ entry.forms :=
  nil_notMem_mul (nil_notMem_textForms entry.field)

theorem ElementSegment.nil_notMem_forms (segment : ElementSegment) : [] ∉ segment.forms :=
  nil_notMem_mul (nil_notMem_indexForms segment.table)

theorem LocalGroup.nil_notMem_forms (group : LocalGroup) : [] ∉ group.forms :=
  nil_notMem_mul (nil_notMem_indexForms group.count)

theorem FunctionBody.nil_notMem_forms (body : FunctionBody) : [] ∉ body.forms :=
  nil_notMem_regionForms body.contentForms

theorem DataSegment.nil_notMem_forms (segment : DataSegment) : [] ∉ segment.forms :=
  nil_notMem_mul (nil_notMem_indexForms segment.memory)

/-! ### Writing a form -/

/-- The encoder writes a word of the language, or one that is too long to be counted. -/
def WritesForm (e : Encoder Unit) (L : Language UInt8) : Prop :=
  ∃ word, Writes e word ∧ (word.length < 2 ^ 32 → word ∈ L)

namespace WritesForm

variable {e f : Encoder Unit} {L M : Language UInt8}

theorem of_mem {word : Bytes} (he : Writes e word) (hword : word ∈ L) : WritesForm e L :=
  ⟨word, he, fun _ ↦ hword⟩

theorem byte (b : UInt8) : WritesForm (.byte b) {[b]} := .of_mem (.byte b) rfl

theorem bytes (content : Bytes) : WritesForm (.bytes content) {content} :=
  .of_mem (.bytes content) rfl

theorem unsigned (width : Width) {n : Nat} (hn : n < 2 ^ width.bits) :
    WritesForm (.unsigned n) (unsignedForms width n) :=
  .of_mem (.bytes _) (isShortest_encodeUnsigned hn).mem

theorem signed (width : Width) {i : Int} (hlower : -2 ^ (width.bits - 1) ≤ i)
    (hupper : i < 2 ^ (width.bits - 1)) : WritesForm (.signed i) (signedForms width i) :=
  .of_mem (.bytes _) (isShortest_encodeSigned hlower hupper).mem

/-- Two parts, neither of which is longer than both together. -/
theorem bind (he : WritesForm e L) (hf : WritesForm f M) : WritesForm (do e; f) (L * M) := by
  obtain ⟨x, hx, hxL⟩ := he
  obtain ⟨y, hy, hyM⟩ := hf
  refine ⟨x ++ y, hx.bind hy, fun hlength ↦ ?_⟩
  rw [List.length_append] at hlength
  exact Language.append_mem_mul (hxL (by omega)) (hyM (by omega))

/-- A part behind its size, which is at most the number of its bytes. -/
theorem sized {size : Nat} (hsize : ∀ word ∈ L, size ≤ word.length) (he : WritesForm e L) :
    WritesForm (do .unsigned size; e) (unsignedForms .w32 size * L) := by
  obtain ⟨word, hword, hL⟩ := he
  refine ⟨encodeUnsigned size ++ word, .bind (.bytes _) hword, fun hlength ↦ ?_⟩
  rw [List.length_append] at hlength
  have hmem := hL (by omega)
  have hbound : size < 2 ^ 32 := lt_of_le_of_lt (hsize word hmem) (by omega)
  have hform : IsShortest (unsignedForms .w32 size) (encodeUnsigned size) :=
    isShortest_encodeUnsigned hbound
  exact Language.append_mem_mul hform.mem hmem

/-- The elements of a list in turn. -/
theorem each {element : α → Encoder Unit} {forms : α → Language UInt8} {list : List α}
    (helement : ∀ a ∈ list, WritesForm (element a) (forms a)) :
    WritesForm (.each element list) (inTurn forms list) := by
  induction list with
  | nil => exact .of_mem .pure Language.nil_mem_one
  | cons a later ih =>
    rw [inTurn_cons]
    exact (helement a List.mem_cons_self).bind
      (ih fun b hb ↦ helement b (List.mem_cons_of_mem a hb))

/-- A list behind the number of its elements, none of which is empty. -/
theorem counted {element : α → Encoder Unit} {forms : α → Language UInt8}
    (hforms : ∀ a, [] ∉ forms a) {list : List α}
    (helement : ∀ a ∈ list, WritesForm (element a) (forms a)) :
    WritesForm (.counted element list) (countedForms forms list) :=
  .sized (fun _ ↦ length_le_of_mem_inTurn hforms) (each helement)

/-- Content behind its length. -/
theorem region (he : WritesForm e L) : WritesForm (.region e) (regionForms L) := by
  obtain ⟨word, hword, hL⟩ := he
  refine ⟨encodeUnsigned word.length ++ word, hword.region, fun hlength ↦ ?_⟩
  rw [List.length_append] at hlength
  have hbound : word.length < 2 ^ 32 := by omega
  have hform : IsShortest (unsignedForms .w32 word.length) (encodeUnsigned word.length) :=
    isShortest_encodeUnsigned hbound
  exact ⟨word, hL hbound, Language.append_mem_mul hform.mem rfl⟩

end WritesForm

/-! ### Types -/

theorem writesForm_varUint32 (n : UInt32) : WritesForm (.varUint32 n) (indexForms n) :=
  .unsigned .w32 n.toNat_lt

theorem writesForm_countedBytes (content : Bytes) :
    WritesForm (.countedBytes content) (sizedForms content) :=
  .sized (by rintro _ rfl; exact Nat.le_refl _) (.bytes content)

theorem writesForm_countedText (text : String) :
    WritesForm (.countedText text) (textForms text) := writesForm_countedBytes _

theorem Limits.writesForm (limits : Limits) : WritesForm limits.encode limits.forms := by
  obtain ⟨initial, _ | maximum⟩ := limits
  · have hforms : forms ⟨initial, none⟩ = unsignedForms .w32 0 * indexForms initial := by
      rw [forms, optionForms, Option.elim_none, mul_one]
      rfl
    rw [hforms]
    exact .bind (.unsigned .w32 (by decide)) (writesForm_varUint32 initial)
  · exact .bind (.unsigned .w32 (n := 1) (by decide))
      (.bind (writesForm_varUint32 initial) (writesForm_varUint32 maximum))

theorem TableType.writesForm (type : TableType) : WritesForm type.encode type.forms :=
  .bind (.byte type.elementType.toByte) type.limits.writesForm

theorem GlobalType.writesForm (type : GlobalType) : WritesForm type.encode type.forms :=
  .bind (.byte type.contentType.toByte) (.byte _)

theorem FuncType.writesForm (type : FuncType) : WritesForm type.encode type.forms := by
  have hparams : WritesForm (.counted ValueType.encode type.params)
      (countedForms ValueType.forms type.params) :=
    .counted ValueType.nil_notMem_forms fun param _ ↦ .byte param.toByte
  refine .bind (.byte type.form.toByte) (.bind hparams ?_)
  cases type.result with
  | none =>
    have hforms : resultForms none = unsignedForms .w32 0 := by
      rw [resultForms, optionForms, Option.elim_none, mul_one]
      rfl
    rw [hforms]
    exact .unsigned .w32 (by decide)
  | some result => exact .bind (.unsigned .w32 (n := 1) (by decide)) (.byte result.toByte)

/-! ### Canonical instructions -/

/-- The flag of an immediate that has one. -/
def Immediate.flag? : Immediate → Option UInt8
  | .varUint1 value => some value
  | .callIndirect call => some call.reserved
  | _ => none

namespace Instruction

/-- The instruction is one that can be read: its name and its type are those of an opcode, its
immediate has the shape of this opcode, and a flag in it is one bit. -/
structure Canonical (instruction : Instruction) : Prop where
  named : ∃ entry ∈ Opcode.table, ofFullName? entry.2 = some instruction.bare
  shaped : instruction.immediate.map Immediate.shape = instruction.shape?
  flagged : ∀ immediate ∈ instruction.immediate, ∀ flag ∈ immediate.flag?, flag ≤ 1

/-- A name with an entry in the table of opcodes is the name of a byte. -/
theorem exists_opcode_iff {instruction : Instruction} :
    (∃ entry ∈ Opcode.table, ofFullName? entry.2 = some instruction.bare) ↔
      ∃ byte, (Opcode.name? byte).bind ofFullName? = some instruction.bare := by
  constructor
  · rintro ⟨⟨byte, name⟩, hentry, hbase⟩
    refine ⟨byte, ?_⟩
    rw [Opcode.name?_of_mem_table hentry]
    exact hbase
  · rintro ⟨byte, hbase⟩
    obtain ⟨name, hname, hbase⟩ := Option.bind_eq_some_iff.mp hbase
    exact ⟨(byte, name), Opcode.mem_table_of_name? hname, hbase⟩

/-- A form of an immediate has no room for a flag of more than one bit. -/
theorem flag_le_one_of_mem_forms {immediate : Immediate} {word : Bytes}
    (h : word ∈ immediate.forms) {flag : UInt8} (hflag : flag ∈ immediate.flag?) : flag ≤ 1 := by
  have hbound {part : Bytes} {n : UInt8} (hpart : part ∈ unsignedForms .w1 n.toNat) : n ≤ 1 := by
    have hlt : n.toNat < 2 ^ 1 := hpart.2.2.2
    rw [UInt8.le_iff_toNat_le, UInt8.toNat_one]
    omega
  cases immediate with
  | varUint1 value =>
    cases hflag
    exact hbound h
  | callIndirect call =>
    cases hflag
    obtain ⟨_, -, _, hreserved, -⟩ := Language.mem_mul.mp h
    exact hbound hreserved
  | _ => cases hflag

/-- An instruction that has a form is canonical. -/
theorem canonical_of_mem_forms {instruction : Instruction} {word : Bytes}
    (h : word ∈ instruction.forms) : instruction.Canonical := by
  obtain ⟨_, ⟨byte, hbase, -⟩, rest, ⟨hshape, hrest⟩, -⟩ := Language.mem_mul.mp h
  refine ⟨exists_opcode_iff.mpr ⟨byte, hbase⟩, hshape, fun immediate himmediate ↦ ?_⟩
  rw [show instruction.immediate = some immediate from himmediate] at hrest
  exact fun flag ↦ flag_le_one_of_mem_forms hrest

end Instruction

theorem BranchTable.writesForm (table : BranchTable) : WritesForm table.encode table.forms :=
  .bind (.counted nil_notMem_indexForms fun target _ ↦ writesForm_varUint32 target)
    (writesForm_varUint32 table.defaultTarget)

theorem MemoryAccess.writesForm (access : MemoryAccess) : WritesForm access.encode access.forms :=
  .bind (writesForm_varUint32 access.flags) (writesForm_varUint32 access.offset)

/-- An immediate whose flag is one bit. -/
theorem Immediate.writesForm {immediate : Immediate} (h : ∀ flag ∈ immediate.flag?, flag ≤ 1) :
    WritesForm immediate.encode immediate.forms := by
  have hflag {flag : UInt8} (hle : flag ≤ 1) :
      WritesForm (.unsigned flag.toNat) (unsignedForms .w1 flag.toNat) :=
    .unsigned .w1 (Nat.lt_succ_of_le (UInt8.le_iff_toNat_le.mp hle))
  cases immediate with
  | varUint1 value => exact hflag (h value rfl)
  | varUint32 value => exact writesForm_varUint32 value
  | varInt32 value => exact .signed .w32 value.le_toInt value.toInt_lt
  | varInt64 value => exact .signed .w64 value.le_toInt value.toInt_lt
  | uint32 bytes => exact .bytes bytes.toList
  | uint64 bytes => exact .bytes bytes.toList
  | blockType type => exact .byte type.toByte
  | branchTable table => exact table.writesForm
  | callIndirect call => exact .bind (writesForm_varUint32 call.typeIndex) (hflag (h _ rfl))
  | memory access => exact access.writesForm

namespace Instruction.Canonical

variable {instruction : Instruction}

theorem writesForm_immediate (h : instruction.Canonical) :
    WritesForm instruction.encodeImmediate instruction.immediateForms := by
  have hforms : instruction.immediateForms =
      optionForms Immediate.forms instruction.immediate := by
    ext word
    exact and_iff_right h.shaped
  rw [hforms, encodeImmediate, if_pos h.shaped]
  cases himmediate : instruction.immediate with
  | none => exact .of_mem .pure Language.nil_mem_one
  | some immediate => exact Immediate.writesForm (h.flagged immediate himmediate)

/-- A canonical instruction is written as one of its forms. -/
theorem writesForm (h : instruction.Canonical) :
    WritesForm instruction.encode instruction.forms := by
  obtain ⟨byte, hbase⟩ := exists_opcode_iff.mp h.named
  rw [encode, byte?_fullName_of_opcode hbase, forms, opcodeForms_eq hbase]
  exact .bind (.byte byte) h.writesForm_immediate

theorem writesForm_initializer (h : instruction.Canonical) :
    WritesForm instruction.encodeInitializer instruction.initializerForms :=
  .bind h.writesForm (.byte endByte)

end Instruction.Canonical

/-! ### Entries -/

theorem Imported.writesForm (item : Imported) :
    WritesForm item.encode (item.kind.forms * item.forms) := by
  cases item with
  | function typeIndex =>
    exact .bind (.byte ExternalKind.function.toByte) (writesForm_varUint32 typeIndex)
  | table type => exact .bind (.byte ExternalKind.table.toByte) type.writesForm
  | memory limits => exact .bind (.byte ExternalKind.memory.toByte) limits.writesForm
  | global type => exact .bind (.byte ExternalKind.global.toByte) type.writesForm

theorem Import.writesForm (entry : Import) : WritesForm entry.encode entry.forms :=
  .bind (writesForm_countedText entry.moduleName)
    (.bind (writesForm_countedText entry.field) entry.item.writesForm)

theorem Global.writesForm {entry : Global} (h : entry.init.Canonical) :
    WritesForm entry.encode entry.forms :=
  .bind entry.type.writesForm h.writesForm_initializer

theorem Export.writesForm (entry : Export) : WritesForm entry.encode entry.forms :=
  .bind (writesForm_countedText entry.field)
    (.bind (.byte entry.kind.toByte) (writesForm_varUint32 entry.index))

theorem ElementSegment.writesForm {segment : ElementSegment} (h : segment.offset.Canonical) :
    WritesForm segment.encode segment.forms :=
  .bind (writesForm_varUint32 segment.table)
    (.bind h.writesForm_initializer
      (.counted nil_notMem_indexForms fun function _ ↦ writesForm_varUint32 function))

theorem LocalGroup.writesForm (group : LocalGroup) : WritesForm group.encode group.forms :=
  .bind (writesForm_varUint32 group.count) (.byte group.type.toByte)

theorem FunctionBody.writesForm {body : FunctionBody}
    (h : ∀ instruction ∈ body.code, instruction.Canonical) : WritesForm body.encode body.forms :=
  .region (.bind (.counted LocalGroup.nil_notMem_forms fun group _ ↦ group.writesForm)
    (.each fun instruction hmem ↦ (h instruction hmem).writesForm))

theorem DataSegment.writesForm {segment : DataSegment} (h : segment.offset.Canonical) :
    WritesForm segment.encode segment.forms :=
  .bind (writesForm_varUint32 segment.memory)
    (.bind h.writesForm_initializer (writesForm_countedBytes segment.data))

/-! ### Sections -/

namespace Section

/-- The instructions of a section: those of bodies, and the initializers. -/
def instructions : Section → List Instruction
  | .globals entries => entries.map Global.init
  | .elements segments => segments.map ElementSegment.offset
  | .code bodies => bodies.flatMap FunctionBody.code
  | .data segments => segments.map DataSegment.offset
  | _ => []

/-- The content of a section of canonical instructions is written as one of its forms. -/
theorem writesForm_content {s : Section}
    (h : ∀ instruction ∈ s.instructions, instruction.Canonical) :
    WritesForm s.encodeContent s.contentForms := by
  cases s with
  | custom name payload => exact .bind (writesForm_countedText name) (.bytes payload)
  | types entries => exact .counted FuncType.nil_notMem_forms fun type _ ↦ type.writesForm
  | imports entries => exact .counted Import.nil_notMem_forms fun entry _ ↦ entry.writesForm
  | functions typeIndices =>
    exact .counted nil_notMem_indexForms fun index _ ↦ writesForm_varUint32 index
  | tables entries => exact .counted TableType.nil_notMem_forms fun type _ ↦ type.writesForm
  | memories entries => exact .counted Limits.nil_notMem_forms fun limits _ ↦ limits.writesForm
  | globals entries =>
    refine .counted Global.nil_notMem_forms fun entry hentry ↦ Global.writesForm (h _ ?_)
    exact List.mem_map_of_mem hentry
  | exports entries => exact .counted Export.nil_notMem_forms fun entry _ ↦ entry.writesForm
  | start function => exact writesForm_varUint32 function
  | elements segments =>
    refine .counted ElementSegment.nil_notMem_forms fun segment hsegment ↦
      ElementSegment.writesForm (h _ ?_)
    exact List.mem_map_of_mem hsegment
  | code bodies =>
    refine .counted FunctionBody.nil_notMem_forms fun body hbody ↦
      FunctionBody.writesForm fun instruction hmem ↦ h instruction ?_
    exact List.mem_flatMap.mpr ⟨body, hbody, hmem⟩
  | data segments =>
    refine .counted DataSegment.nil_notMem_forms fun segment hsegment ↦
      DataSegment.writesForm (h _ ?_)
    exact List.mem_map_of_mem hsegment

end Section

end WasmMeter
