import WasmMeter.Instruction
import WasmMeter.Reader
import WasmMeter.Text.Blank
import WasmMeter.Text.FloatLiteral

/-!
# Instruction listings

A listing is flat text such as `i32.const 4 call 0`: every word is the name of an opcode or a part
of the immediate of the opcode before it. There is no nesting and no comment.

`Listing.parse` reads a text; `Listing.immediate` says which words an immediate of each shape takes.
A branch table takes as many indices as follow it, and the last one is its default. The reserved
byte of an indirect call is not written.
-/

set_option autoImplicit false

namespace WasmMeter

/-- Why a text is no listing. -/
inductive ListingError
  | unknownOpcode (word : String)
  | unknownType (type : String)
  | missingImmediate (opcode : String)
  | invalidImmediate (opcode word : String)
  deriving DecidableEq, Repr

/-- The error in words. -/
def ListingError.message : ListingError → String
  | .unknownOpcode word => "unknown opcode \x60" ++ word ++ "\x60"
  | .unknownType type => "unknown type \x60" ++ type ++ "\x60"
  | .missingImmediate opcode => "\x60" ++ opcode ++ "\x60 is missing its immediate"
  | .invalidImmediate opcode word =>
    "invalid immediate \x60" ++ word ++ "\x60 for \x60" ++ opcode ++ "\x60"

namespace Listing

/-- Reads from the words of a text. -/
abbrev Parser := Reader String ListingError

/-- The words of a text. -/
def words (text : String) : List String := (Text.words text.toList).map String.ofList

/-! ### The parts of immediates -/

/-- The natural number of thirty-two bits that a word spells. -/
def index? (word : String) : Option UInt32 :=
  (Numeral.unsigned? 32 word.toList).map UInt32.ofNat

/-- The flag that a word spells. -/
def flag? (word : String) : Option UInt8 := (Numeral.unsigned? 1 word.toList).map UInt8.ofNat

/-- The integer of thirty-two bits that a word spells. -/
def int32? (word : String) : Option Int32 := (Numeral.signed? 32 word.toList).map Int32.ofInt

/-- The integer of sixty-four bits that a word spells. -/
def int64? (word : String) : Option Int64 := (Numeral.signed? 64 word.toList).map Int64.ofInt

/-- The bytes of the float that a word spells. -/
def float? (format : FloatFormat) (word : String) : Option (Vector UInt8 format.width) :=
  (FloatLiteral.parse? word.toList).map fun literal ↦ Bytes.word _ (format.bits literal)

/-- Takes the word that has to follow an opcode, and reads it. -/
def operand {α : Type} (opcode : String) (read? : String → Option α) : Parser α := do
  let word ← Reader.next (.missingImmediate opcode)
  Reader.require (.invalidImmediate opcode word) (read? word)

/-- Takes all indices that follow. -/
def indices : Parser (List UInt32) := fun words ↦
  let (spelled, rest) := words.span fun word ↦ (index? word).isSome
  .ok (spelled.filterMap index?) rest

/-- Takes the indices of a branch table. -/
def branchTable (opcode : String) : Parser BranchTable := do
  let labels ← indices
  match labels.getLast? with
  | some defaultTarget => pure ⟨labels.dropLast, defaultTarget⟩
  | none => Reader.fail (.missingImmediate opcode)

/-- Takes the immediate of an opcode. -/
def immediate (opcode : String) : Shape → Parser Immediate
  | .varUint1 => .varUint1 <$> operand opcode flag?
  | .varUint32 => .varUint32 <$> operand opcode index?
  | .varInt32 => .varInt32 <$> operand opcode int32?
  | .varInt64 => .varInt64 <$> operand opcode int64?
  | .uint32 => .uint32 <$> operand opcode (float? .binary32)
  | .uint64 => .uint64 <$> operand opcode (float? .binary64)
  | .blockType => .blockType <$> operand opcode LanguageType.ofName?
  | .branchTable => .branchTable <$> branchTable opcode
  | .callIndirect => do
    let typeIndex ← operand opcode index?
    pure (.callIndirect ⟨typeIndex, 0⟩)
  | .memory => do
    let flags ← operand opcode index?
    let offset ← operand opcode index?
    pure (.memory ⟨flags, offset⟩)

/-! ### Instructions -/

/-- The instruction that a word names, without its immediate. -/
def opcode (word : String) : Except ListingError Instruction :=
  let known :=
    match Opcode.byte? word, Instruction.ofFullName? word with
    | some _, some instruction => .ok instruction
    | _, _ => .error (.unknownOpcode word)
  match Instruction.splitAtDot? word with
  | some (type, _) => if (ValueType.ofName? type).isSome then known else .error (.unknownType type)
  | none => known

/-- Takes an instruction. -/
def instruction : Parser Instruction := do
  let word ← Reader.next (.missingImmediate "")
  match opcode word with
  | .error e => Reader.fail e
  | .ok named =>
    match named.shape? with
    | some shape => named.withImmediate <$> immediate word shape
    | none => pure named

/-- The instructions of a text. -/
def parse (text : String) : Except ListingError (List Instruction) :=
  Reader.value (Reader.untilEnd instruction (words text))

end Listing

end WasmMeter
