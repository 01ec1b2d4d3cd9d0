import WasmMeter.Binary.Module
import WasmMeter.Proofs.Binary.Reads
import WasmMeter.Proofs.Leb128.Forms

/-!
# The binary grammar

The forms of a node are the byte strings that encode it. A record has the forms of its fields in
turn, and a list has those of its elements behind a form of their number. What has a length in front
of it, a body or a section, has the forms of its content behind a form of the number of its bytes.

A node may have no form at all: a list may be too long to be counted, or an instruction may have no
opcode or an immediate of the wrong shape. The definitions here mention neither readers nor writers.
-/

set_option autoImplicit false

namespace WasmMeter

open Leb128

/-! ### Lists and texts -/

/-- The forms of a natural number of thirty-two bits. -/
def indexForms (n : UInt32) : Language UInt8 := unsignedForms .w32 n.toNat

/-- Bytes behind a form of their number. -/
def sizedForms (content : Bytes) : Language UInt8 := unsignedForms .w32 content.length * {content}

/-- A text behind a form of the number of its bytes. -/
def textForms (text : String) : Language UInt8 := sizedForms (Utf8.encode text)

/-- The forms of the elements of a list in turn, behind a form of their number. -/
def countedForms {α : Type} (forms : α → Language UInt8) (list : List α) : Language UInt8 :=
  unsignedForms .w32 list.length * inTurn forms list

/-- The number that tells whether there is a value. -/
def presence {α : Type} (value : Option α) : UInt32 := if value.isSome then 1 else 0

/-- The forms of a value that may be missing, and has no bytes then. -/
def optionForms {α : Type} (forms : α → Language UInt8) (value : Option α) : Language UInt8 :=
  value.elim 1 forms

/-- Any of the contents, behind a form of the number of its bytes. -/
def regionForms (contents : Language UInt8) : Language UInt8 :=
  {word | ∃ content ∈ contents, word ∈ sizedForms content}

/-! ### Types -/

/-- The forms of a value type. -/
def ValueType.forms (type : ValueType) : Language UInt8 := {[type.toByte]}

/-- The forms of a type constructor. -/
def LanguageType.forms (type : LanguageType) : Language UInt8 := {[type.toByte]}

/-- The forms of a kind. -/
def ExternalKind.forms (kind : ExternalKind) : Language UInt8 := {[kind.toByte]}

/-- The forms of limits: whether there is a maximum, the initial size, and the maximum. -/
def Limits.forms (limits : Limits) : Language UInt8 :=
  indexForms (presence limits.maximum) *
    (indexForms limits.initial * optionForms indexForms limits.maximum)

/-- The forms of the type of a table. -/
def TableType.forms (type : TableType) : Language UInt8 :=
  type.elementType.forms * type.limits.forms

/-- The forms of the type of a global. -/
def GlobalType.forms (type : GlobalType) : Language UInt8 :=
  type.contentType.forms * {[if type.isMutable then 1 else 0]}

/-- The forms of the results of a signature: their number, and the one that there may be. -/
def FuncType.resultForms (result : Option ValueType) : Language UInt8 :=
  indexForms (presence result) * optionForms ValueType.forms result

/-- The forms of a signature. -/
def FuncType.forms (type : FuncType) : Language UInt8 :=
  type.form.forms * (countedForms ValueType.forms type.params * resultForms type.result)

/-! ### Instructions -/

/-- The forms of a branch table. -/
def BranchTable.forms (table : BranchTable) : Language UInt8 :=
  countedForms indexForms table.targets * indexForms table.defaultTarget

/-- The forms of the immediate of an indirect call. -/
def IndirectCall.forms (call : IndirectCall) : Language UInt8 :=
  indexForms call.typeIndex * unsignedForms .w1 call.reserved.toNat

/-- The forms of the immediate of an access to memory. -/
def MemoryAccess.forms (access : MemoryAccess) : Language UInt8 :=
  indexForms access.flags * indexForms access.offset

/-- The forms of an immediate. -/
def Immediate.forms : Immediate → Language UInt8
  | .varUint1 value => unsignedForms .w1 value.toNat
  | .varUint32 value => indexForms value
  | .varInt32 value => signedForms .w32 value.toInt
  | .varInt64 value => signedForms .w64 value.toInt
  | .uint32 bytes => {bytes.toList}
  | .uint64 bytes => {bytes.toList}
  | .blockType type => type.forms
  | .branchTable table => table.forms
  | .callIndirect call => call.forms
  | .memory access => access.forms

namespace Instruction

/-- The instruction without its immediate. -/
def bare (instruction : Instruction) : Instruction := { instruction with immediate := none }

/-- The byte of an opcode whose name and type are those of the instruction. -/
def opcodeForms (instruction : Instruction) : Language UInt8 :=
  {word | ∃ byte, (Opcode.name? byte).bind ofFullName? = some instruction.bare ∧ word = [byte]}

/-- The forms of the immediate, which has to have the shape of the opcode. -/
def immediateForms (instruction : Instruction) : Language UInt8 :=
  {word | instruction.immediate.map Immediate.shape = instruction.shape? ∧
    word ∈ optionForms Immediate.forms instruction.immediate}

/-- The forms of an instruction. -/
def forms (instruction : Instruction) : Language UInt8 :=
  instruction.opcodeForms * instruction.immediateForms

/-- The forms of an initializer: an instruction and the byte of `end`. -/
def initializerForms (instruction : Instruction) : Language UInt8 :=
  instruction.forms * {[endByte]}

end Instruction

/-! ### Entries of sections -/

/-- The kind of what an import supplies. -/
def Imported.kind : Imported → ExternalKind
  | .function _ => .function
  | .table _ => .table
  | .memory _ => .memory
  | .global _ => .global

/-- The forms of what an import supplies. -/
def Imported.forms : Imported → Language UInt8
  | .function typeIndex => indexForms typeIndex
  | .table type => type.forms
  | .memory limits => limits.forms
  | .global type => type.forms

/-- The forms of an import. -/
def Import.forms (entry : Import) : Language UInt8 :=
  textForms entry.moduleName *
    (textForms entry.field * (entry.item.kind.forms * entry.item.forms))

/-- The forms of a global. -/
def Global.forms (entry : Global) : Language UInt8 :=
  entry.type.forms * entry.init.initializerForms

/-- The forms of an export. -/
def Export.forms (entry : Export) : Language UInt8 :=
  textForms entry.field * (entry.kind.forms * indexForms entry.index)

/-- The forms of an element segment. -/
def ElementSegment.forms (segment : ElementSegment) : Language UInt8 :=
  indexForms segment.table *
    (segment.offset.initializerForms * countedForms indexForms segment.functions)

/-- The forms of a group of locals. -/
def LocalGroup.forms (group : LocalGroup) : Language UInt8 :=
  indexForms group.count * group.type.forms

/-- The forms of the locals and the code of a function. -/
def FunctionBody.contentForms (body : FunctionBody) : Language UInt8 :=
  countedForms LocalGroup.forms body.locals * inTurn Instruction.forms body.code

/-- The forms of the body of a function. -/
def FunctionBody.forms (body : FunctionBody) : Language UInt8 := regionForms body.contentForms

/-- The forms of a data segment. -/
def DataSegment.forms (segment : DataSegment) : Language UInt8 :=
  indexForms segment.memory * (segment.offset.initializerForms * sizedForms segment.data)

/-! ### Sections and modules -/

namespace Section

/-- The forms of the content of a section. -/
def contentForms : Section → Language UInt8
  | .custom name payload => textForms name * {payload}
  | .types entries => countedForms FuncType.forms entries
  | .imports entries => countedForms Import.forms entries
  | .functions typeIndices => countedForms indexForms typeIndices
  | .tables entries => countedForms TableType.forms entries
  | .memories entries => countedForms Limits.forms entries
  | .globals entries => countedForms Global.forms entries
  | .exports entries => countedForms Export.forms entries
  | .start function => indexForms function
  | .elements segments => countedForms ElementSegment.forms segments
  | .code bodies => countedForms FunctionBody.forms bodies
  | .data segments => countedForms DataSegment.forms segments

/-- The forms of a section: the byte of its kind, and its content behind its length. -/
def forms (s : Section) : Language UInt8 := {[s.id.toByte]} * regionForms s.contentForms

end Section

/-- The bytes in front of the sections. -/
def Preamble.forms (preamble : Preamble) : Language UInt8 :=
  {preamble.magic.toList} * {Bytes.ofNat 4 preamble.version.toNat}

/-- The forms of a module: its preamble and its sections in turn. -/
def Module.forms (m : Module) : Language UInt8 := m.preamble.forms * inTurn Section.forms m.sections

end WasmMeter
