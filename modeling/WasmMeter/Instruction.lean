import WasmMeter.Opcode.Shape
import WasmMeter.Types

/-!
# Instructions

An instruction is named by its opcode. The type in front of the first dot of the opcode's name is
kept apart from the rest: `i32.wrap/i64` has the type `i32` and the name `wrap/i64`. Names and
immediates are free; that an opcode of the name exists, and that the immediate has its shape, is
checked where an instruction is written.

`Instruction.ofFullName?` takes a full name apart and `Instruction.fullName` puts it together.
-/

set_option autoImplicit false

namespace WasmMeter

/-! ### Immediates -/

/-- The labels that a branch may go to: one for each index, and one for all larger ones. -/
structure BranchTable where
  targets : List UInt32
  defaultTarget : UInt32
  deriving DecidableEq, Repr

/-- The signature that an indirect call expects, and a byte that is always clear. -/
structure IndirectCall where
  typeIndex : UInt32
  reserved : UInt8
  deriving DecidableEq, Repr

/-- The alignment and the offset of an access to memory. -/
structure MemoryAccess where
  flags : UInt32
  offset : UInt32
  deriving DecidableEq, Repr

/-- The immediate of an instruction. The bytes of a float constant are kept as they are stored. -/
inductive Immediate
  | varUint1 (value : UInt8)
  | varUint32 (value : UInt32)
  | varInt32 (value : Int32)
  | varInt64 (value : Int64)
  | uint32 (bytes : Vector UInt8 4)
  | uint64 (bytes : Vector UInt8 8)
  | blockType (type : LanguageType)
  | branchTable (table : BranchTable)
  | callIndirect (call : IndirectCall)
  | memory (access : MemoryAccess)
  deriving DecidableEq, Repr

/-- The shape of an immediate. -/
def Immediate.shape : Immediate → Shape
  | .varUint1 _ => .varUint1
  | .varUint32 _ => .varUint32
  | .varInt32 _ => .varInt32
  | .varInt64 _ => .varInt64
  | .uint32 _ => .uint32
  | .uint64 _ => .uint64
  | .blockType _ => .blockType
  | .branchTable _ => .branchTable
  | .callIndirect _ => .callIndirect
  | .memory _ => .memory

/-! ### Instructions -/

/-- A single operation. -/
structure Instruction where
  name : String
  type : Option ValueType := none
  immediate : Option Immediate := none
  deriving DecidableEq, Repr

namespace Instruction

/-- An operation on values of a type. -/
def typed (type : ValueType) (name : String) : Instruction := ⟨name, some type, none⟩

/-- The instruction with an immediate. -/
def withImmediate (instruction : Instruction) (immediate : Immediate) : Instruction :=
  { instruction with immediate := some immediate }

/-- What stands on either side of the first dot, if there is one. -/
def splitAtDot? (fullName : String) : Option (String × String) :=
  match fullName.toList.span (· ≠ '.') with
  | (_, []) => none
  | (before, _ :: behind) => some (String.ofList before, String.ofList behind)

/-- The instruction of a full name, without an immediate. What stands in front of the first dot
has to be a value type. -/
def ofFullName? (fullName : String) : Option Instruction :=
  match splitAtDot? fullName with
  | some (type, name) => (ValueType.ofName? type).map fun type ↦ typed type name
  | none => some ⟨fullName, none, none⟩

/-- The name of an instruction with its type, by which the opcode is found. -/
def fullName (instruction : Instruction) : String :=
  match instruction.type with
  | some type => type.name ++ "." ++ instruction.name
  | none => instruction.name

/-- The key by which the shape of the immediate is found. -/
def shapeKey (instruction : Instruction) : String :=
  match instruction.type with
  | some type => if instruction.name = "const" then type.name else instruction.name
  | none => instruction.name

/-- The shape of the immediate that an instruction has to have. -/
def shape? (instruction : Instruction) : Option Shape := Shape.ofKey? instruction.shapeKey

/-- Whether an instruction ends a block of code that is paid for at once. -/
def isBranching (instruction : Instruction) : Bool := Opcode.isBranching instruction.name

end Instruction

end WasmMeter
