import WasmMeter.Binary.Types

/-!
# The binary form of instructions

An instruction is its opcode byte and its immediate, laid out by the shape that the opcode has. The
instructions of a body follow one another up to the end of the body; an initializer is one
instruction and the byte of `end`.

Writing fails where no opcode has the name of an instruction, and where an immediate does not have
the shape of the opcode; in the second case the opcode byte has been written.
-/

set_option autoImplicit false

namespace WasmMeter

/-! ### Immediates -/

/-- Reads a branch table: the counted targets, then the default. -/
def BranchTable.decode : Decoder BranchTable := do
  let targets ← Decoder.counted Decoder.varUint32
  let defaultTarget ← Decoder.varUint32
  pure ⟨targets, defaultTarget⟩

/-- Writes a branch table. -/
def BranchTable.encode (table : BranchTable) : Encoder Unit := do
  .counted .varUint32 table.targets
  .varUint32 table.defaultTarget

/-- Reads the immediate of an indirect call. -/
def IndirectCall.decode : Decoder IndirectCall := do
  let typeIndex ← Decoder.varUint32
  let reserved ← Decoder.varUint1
  pure ⟨typeIndex, reserved⟩

/-- Writes the immediate of an indirect call. -/
def IndirectCall.encode (call : IndirectCall) : Encoder Unit := do
  .varUint32 call.typeIndex
  .unsigned call.reserved.toNat

/-- Reads the immediate of an access to memory. -/
def MemoryAccess.decode : Decoder MemoryAccess := do
  let flags ← Decoder.varUint32
  let offset ← Decoder.varUint32
  pure ⟨flags, offset⟩

/-- Writes the immediate of an access to memory. -/
def MemoryAccess.encode (access : MemoryAccess) : Encoder Unit := do
  .varUint32 access.flags
  .varUint32 access.offset

/-- Reads an immediate of a shape. -/
def Immediate.decode : Shape → Decoder Immediate
  | .varUint1 => .varUint1 <$> Decoder.varUint1
  | .varUint32 => .varUint32 <$> Decoder.varUint32
  | .varInt32 => .varInt32 <$> Decoder.varInt32
  | .varInt64 => .varInt64 <$> Decoder.varInt64
  | .uint32 => .uint32 <$> Decoder.word 4
  | .uint64 => .uint64 <$> Decoder.word 8
  | .blockType => .blockType <$> LanguageType.decode
  | .branchTable => .branchTable <$> BranchTable.decode
  | .callIndirect => .callIndirect <$> IndirectCall.decode
  | .memory => .memory <$> MemoryAccess.decode

/-- Writes an immediate. -/
def Immediate.encode : Immediate → Encoder Unit
  | .varUint1 value => .unsigned value.toNat
  | .varUint32 value => .varUint32 value
  | .varInt32 value => .signed value.toInt
  | .varInt64 value => .signed value.toInt
  | .uint32 bytes => .bytes bytes.toList
  | .uint64 bytes => .bytes bytes.toList
  | .blockType type => type.encode
  | .branchTable table => table.encode
  | .callIndirect call => call.encode
  | .memory access => access.encode

/-! ### Instructions -/

namespace Instruction

/-- Reads an instruction. -/
def decode : Decoder Instruction := do
  let byte ← Decoder.byte
  let instruction ←
    Reader.require (.unknownOpcode byte) ((Opcode.name? byte).bind ofFullName?)
  match instruction.shape? with
  | some shape => instruction.withImmediate <$> Immediate.decode shape
  | none => pure instruction

/-- Writes the immediate of an instruction. -/
def encodeImmediate (instruction : Instruction) : Encoder Unit :=
  let expected := instruction.shape?
  if instruction.immediate.map Immediate.shape = expected then
    match instruction.immediate with
    | some immediate => immediate.encode
    | none => pure ()
  else .fail (.immediateMismatch instruction.fullName expected)

/-- Writes an instruction. -/
def encode (instruction : Instruction) : Encoder Unit :=
  match Opcode.byte? instruction.fullName with
  | some byte => do
    .byte byte
    instruction.encodeImmediate
  | none => .fail (.unknownOpcode instruction.fullName)

/-- The byte that ends an initializer. -/
def endByte : UInt8 := 0x0b

/-- Reads an initializer. -/
def decodeInitializer : Decoder Instruction := do
  let instruction ← decode
  if (← Decoder.byte) = endByte then pure instruction
  else Reader.fail .unterminatedInitializer

/-- Writes an initializer. -/
def encodeInitializer (instruction : Instruction) : Encoder Unit := do
  instruction.encode
  .byte endByte

/-- Reads instructions up to the end of the input. -/
def decodeCode : Decoder (List Instruction) := Reader.untilEnd decode

/-- Writes instructions in turn. -/
def encodeCode (code : List Instruction) : Encoder Unit := .each encode code

end Instruction

end WasmMeter
