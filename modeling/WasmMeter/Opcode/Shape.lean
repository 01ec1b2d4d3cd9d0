import WasmMeter.Opcode

/-!
# Shapes of immediates

The bytes behind an opcode are its immediate, and the opcode decides how they are laid out. The
shape is looked up by the name of the opcode without its type, and for constants by the type
alone, as constants of different types are stored differently.
-/

set_option autoImplicit false

namespace WasmMeter

/-- How an immediate is laid out. -/
inductive Shape
  | varUint1
  | varUint32
  | varInt32
  | varInt64
  | uint32
  | uint64
  | blockType
  | branchTable
  | callIndirect
  | memory
  deriving DecidableEq, Repr

namespace Shape

/-- The name of a shape in messages. -/
def name : Shape → String
  | .varUint1 => "VarUint1"
  | .varUint32 => "VarUint32"
  | .varInt32 => "VarInt32"
  | .varInt64 => "VarInt64"
  | .uint32 => "Uint32"
  | .uint64 => "Uint64"
  | .blockType => "BlockType"
  | .branchTable => "BranchTable"
  | .callIndirect => "CallIndirect"
  | .memory => "MemoryImmediate"

/-- The shape of the immediates of a key, if they have any. -/
def ofKey? : String → Option Shape
  | "block" | "loop" | "if" => some .blockType
  | "br" | "br_if" => some .varUint32
  | "br_table" => some .branchTable
  | "call" => some .varUint32
  | "call_indirect" => some .callIndirect
  | "get_local" | "set_local" | "tee_local" | "get_global" | "set_global" => some .varUint32
  | "load" | "load8_s" | "load8_u" | "load16_s" | "load16_u" | "load32_s" | "load32_u" =>
    some .memory
  | "store" | "store8" | "store16" | "store32" => some .memory
  | "current_memory" | "grow_memory" => some .varUint1
  | "i32" => some .varInt32
  | "i64" => some .varInt64
  | "f32" => some .uint32
  | "f64" => some .uint64
  | _ => none

end Shape

end WasmMeter
