import WasmMeter.Binary.Instruction

/-!
# The binary form of sections

The content of a section is a counted list of entries. A custom section holds a counted name and
whatever follows it, and a start section one index. In a module the content stands behind the byte
of its kind and the number of its bytes, and it has to use up all of them.
-/

set_option autoImplicit false

namespace WasmMeter

/-! ### Entries -/

/-- Reads what an import of a kind supplies. -/
def Imported.decode : ExternalKind → Decoder Imported
  | .function => .function <$> Decoder.varUint32
  | .table => .table <$> TableType.decode
  | .memory => .memory <$> Limits.decode
  | .global => .global <$> GlobalType.decode

/-- Writes the kind of an import and what it supplies. -/
def Imported.encode : Imported → Encoder Unit
  | .function typeIndex => do
    ExternalKind.function.encode
    .varUint32 typeIndex
  | .table type => do
    ExternalKind.table.encode
    type.encode
  | .memory limits => do
    ExternalKind.memory.encode
    limits.encode
  | .global type => do
    ExternalKind.global.encode
    type.encode

/-- Reads an import. -/
def Import.decode : Decoder Import := do
  let moduleName ← Decoder.countedText
  let field ← Decoder.countedText
  let kind ← ExternalKind.decode
  let item ← Imported.decode kind
  pure ⟨moduleName, field, item⟩

/-- Writes an import. -/
def Import.encode (entry : Import) : Encoder Unit := do
  .countedText entry.moduleName
  .countedText entry.field
  entry.item.encode

/-- Reads a global. -/
def Global.decode : Decoder Global := do
  let type ← GlobalType.decode
  let init ← Instruction.decodeInitializer
  pure ⟨type, init⟩

/-- Writes a global. -/
def Global.encode (entry : Global) : Encoder Unit := do
  entry.type.encode
  entry.init.encodeInitializer

/-- Reads an export. -/
def Export.decode : Decoder Export := do
  let field ← Decoder.countedText
  let kind ← ExternalKind.decode
  let index ← Decoder.varUint32
  pure ⟨field, kind, index⟩

/-- Writes an export. -/
def Export.encode (entry : Export) : Encoder Unit := do
  .countedText entry.field
  entry.kind.encode
  .varUint32 entry.index

/-- Reads an element segment. -/
def ElementSegment.decode : Decoder ElementSegment := do
  let table ← Decoder.varUint32
  let offset ← Instruction.decodeInitializer
  let functions ← Decoder.counted Decoder.varUint32
  pure ⟨table, offset, functions⟩

/-- Writes an element segment. -/
def ElementSegment.encode (segment : ElementSegment) : Encoder Unit := do
  .varUint32 segment.table
  segment.offset.encodeInitializer
  .counted .varUint32 segment.functions

/-- Reads a group of locals. -/
def LocalGroup.decode : Decoder LocalGroup := do
  let count ← Decoder.varUint32
  let type ← ValueType.decode
  pure ⟨count, type⟩

/-- Writes a group of locals. -/
def LocalGroup.encode (group : LocalGroup) : Encoder Unit := do
  .varUint32 group.count
  group.type.encode

/-- Reads the locals and the code of a function up to the end of the input. -/
def FunctionBody.decodeContent : Decoder FunctionBody := do
  let locals ← Decoder.counted LocalGroup.decode
  let code ← Instruction.decodeCode
  pure ⟨locals, code⟩

/-- Reads the body of a function behind the number of its bytes. -/
def FunctionBody.decode : Decoder FunctionBody := do
  let size ← Decoder.varUint32
  let (body, _) ← Decoder.region size.toNat decodeContent
  pure body

/-- Writes the locals and the code of a function. -/
def FunctionBody.encodeContent (body : FunctionBody) : Encoder Unit := do
  .counted LocalGroup.encode body.locals
  Instruction.encodeCode body.code

/-- Writes the body of a function behind the number of its bytes. -/
def FunctionBody.encode (body : FunctionBody) : Encoder Unit := .region body.encodeContent

/-- Reads a data segment. -/
def DataSegment.decode : Decoder DataSegment := do
  let memory ← Decoder.varUint32
  let offset ← Instruction.decodeInitializer
  let data ← Decoder.countedBytes
  pure ⟨memory, offset, data⟩

/-- Writes a data segment. -/
def DataSegment.encode (segment : DataSegment) : Encoder Unit := do
  .varUint32 segment.memory
  segment.offset.encodeInitializer
  .countedBytes segment.data

/-! ### Sections -/

namespace Section

/-- Reads the content of a section of a kind. -/
def decodeContent : SectionId → Decoder Section
  | .custom => do
    let name ← Decoder.countedText
    let payload ← Reader.all
    pure (.custom name payload)
  | .type => .types <$> Decoder.counted FuncType.decode
  | .import => .imports <$> Decoder.counted Import.decode
  | .function => .functions <$> Decoder.counted Decoder.varUint32
  | .table => .tables <$> Decoder.counted TableType.decode
  | .memory => .memories <$> Decoder.counted Limits.decode
  | .global => .globals <$> Decoder.counted Global.decode
  | .export => .exports <$> Decoder.counted Export.decode
  | .start => .start <$> Decoder.varUint32
  | .element => .elements <$> Decoder.counted ElementSegment.decode
  | .code => .code <$> Decoder.counted FunctionBody.decode
  | .data => .data <$> Decoder.counted DataSegment.decode

/-- Writes the content of a section. -/
def encodeContent : Section → Encoder Unit
  | .custom name payload => do
    .countedText name
    .bytes payload
  | .types entries => .counted FuncType.encode entries
  | .imports entries => .counted Import.encode entries
  | .functions typeIndices => .counted .varUint32 typeIndices
  | .tables entries => .counted TableType.encode entries
  | .memories entries => .counted Limits.encode entries
  | .globals entries => .counted Global.encode entries
  | .exports entries => .counted Export.encode entries
  | .start function => .varUint32 function
  | .elements segments => .counted ElementSegment.encode segments
  | .code bodies => .counted FunctionBody.encode bodies
  | .data segments => .counted DataSegment.encode segments

/-- Reads a section. -/
def decode : Decoder Section := do
  let byte ← Decoder.byte
  let id ← Reader.require (.unknownSectionId byte) (SectionId.ofByte? byte)
  let size ← Decoder.varUint32
  let (content, left) ← Decoder.region size.toNat (decodeContent id)
  if left = [] then pure content
  else Reader.fail (.sectionLengthMismatch id size.toNat (size.toNat - left.length))

/-- Writes a section. -/
def encode (s : Section) : Encoder Unit := do
  .byte s.id.toByte
  .region s.encodeContent

end Section

end WasmMeter
