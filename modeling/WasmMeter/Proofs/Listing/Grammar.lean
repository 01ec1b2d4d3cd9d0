import Mathlib.Data.List.Forall2
import WasmMeter.Instruction
import WasmMeter.Text.FloatLiteral

/-!
# The grammar of listings

The words of a listing are those of its instructions in turn (`Listing.Lists`). An instruction is
spelled by the name of its opcode and the words that spell its immediate (`Instruction.SpelledBy`,
`Immediate.SpelledBy`). Where the words of one instruction end is not marked, so a numeral behind a
branch table would belong to the table (`Instruction.EndsBefore`). The definitions here do not
mention how a listing is read.
-/

set_option autoImplicit false

namespace WasmMeter

/-! ### What words spell -/

namespace Listing

/-- The word is a numeral of the number. -/
def SpellsIndex (word : String) (n : UInt32) : Prop :=
  Numeral.unsigned? 32 word.toList = some n.toNat

/-- The word is a literal of the float whose bits the bytes hold, least significant byte first. -/
def SpellsFloat (format : FloatFormat) (word : String) (bytes : Bytes) : Prop :=
  ∃ literal, FloatLiteral.parse? word.toList = some literal ∧
    Bytes.littleEndian bytes = format.bits literal

/-- The next word, if there is one, is no numeral. -/
def NoIndexAhead (words : List String) : Prop :=
  ∀ word ∈ words.head?, Numeral.unsigned? 32 word.toList = none

end Listing

open Listing

/-- The words spell the immediate. The last index of a branch table is the default, and the
reserved byte of an indirect call is clear. -/
inductive Immediate.SpelledBy : Immediate → List String → Prop
  | varUint1 {value : UInt8} {word : String}
      (hword : Numeral.unsigned? 8 word.toList = some value.toNat)
      (hvalue : value = 0 ∨ value = 1) : SpelledBy (.varUint1 value) [word]
  | varUint32 {value : UInt32} {word : String} (hword : SpellsIndex word value) :
      SpelledBy (.varUint32 value) [word]
  | varInt32 {value : Int32} {word : String}
      (hword : Numeral.signed? 32 word.toList = some value.toInt) :
      SpelledBy (.varInt32 value) [word]
  | varInt64 {value : Int64} {word : String}
      (hword : Numeral.signed? 64 word.toList = some value.toInt) :
      SpelledBy (.varInt64 value) [word]
  | uint32 {bytes : Vector UInt8 4} {word : String}
      (hword : SpellsFloat .binary32 word bytes.toList) : SpelledBy (.uint32 bytes) [word]
  | uint64 {bytes : Vector UInt8 8} {word : String}
      (hword : SpellsFloat .binary64 word bytes.toList) : SpelledBy (.uint64 bytes) [word]
  | blockType (type : LanguageType) : SpelledBy (.blockType type) [type.name]
  | branchTable {table : BranchTable} {words : List String}
      (hwords : List.Forall₂ SpellsIndex words (table.targets ++ [table.defaultTarget])) :
      SpelledBy (.branchTable table) words
  | callIndirect {typeIndex : UInt32} {word : String} (hword : SpellsIndex word typeIndex) :
      SpelledBy (.callIndirect ⟨typeIndex, 0⟩) [word]
  | memory {access : MemoryAccess} {flags offset : String} (hflags : SpellsIndex flags access.flags)
      (hoffset : SpellsIndex offset access.offset) : SpelledBy (.memory access) [flags, offset]

namespace Instruction

/-- The instruction is that of an opcode in the table: its full name is listed there, and what
stands in front of the first dot of this name is its type. -/
structure HasOpcode (instruction : Instruction) : Prop where
  listed : ∃ byte, (byte, instruction.fullName) ∈ Opcode.table
  separated : instruction.type = none → '.' ∉ instruction.name.toList

/-- The words are the full name of the instruction, and behind it those of an immediate if the
opcode takes one. -/
inductive SpelledBy : Instruction → List String → Prop
  | plain {instruction : Instruction} (hopcode : instruction.HasOpcode)
      (hshape : instruction.shape? = none) (himmediate : instruction.immediate = none) :
      SpelledBy instruction [instruction.fullName]
  | operands {instruction : Instruction} {immediate : Immediate} {operands : List String}
      (hopcode : instruction.HasOpcode) (hshape : instruction.shape? = some immediate.shape)
      (himmediate : instruction.immediate = some immediate)
      (hoperands : immediate.SpelledBy operands) :
      SpelledBy instruction (instruction.fullName :: operands)

theorem SpelledBy.ne_nil {instruction : Instruction} {group : List String}
    (h : instruction.SpelledBy group) : group ≠ [] := by
  cases h with
  | plain => exact List.cons_ne_nil _ _
  | operands => exact List.cons_ne_nil _ _

/-- The words may stand behind those of the instruction: a branch table has all numerals that
follow it. -/
def EndsBefore (instruction : Instruction) (rest : List String) : Prop :=
  instruction.shape? = some .branchTable → NoIndexAhead rest

end Instruction

/-- The words are those of the instructions in turn. -/
inductive Listing.Lists : List String → List Instruction → Prop
  | nil : Lists [] []
  | cons {group rest : List String} {instruction : Instruction} {later : List Instruction}
      (hgroup : instruction.SpelledBy group) (hend : instruction.EndsBefore rest)
      (hrest : Lists rest later) : Lists (group ++ rest) (instruction :: later)

end WasmMeter
