import WasmMeter.Gas.Builtin
import WasmMeter.Listing.Memo
import WasmMeter.Module

/-!
# Gas metering

A metered module pays for its code before it runs it. The code of a function is cut into blocks,
each of which ends where control may leave or arrive (`blocks`), and in front of every block whose
cost is not zero stands a statement: a constant, the cost of the block and of the statement itself,
and a call of an imported function that is charged the constant. The first block of a function also
pays for its signature and its locals.

The import is added behind the imported functions that are there, so every reference to a function
from its index on is shifted by one.

`Metering.meter` is the whole pass. The checks come in a fixed order: the import must not exist
already, then the references outside of code must have room to be shifted, then every body must
have a signature, and then block by block the cost must fit the type of the constant and the calls
must have room to be shifted.
-/

set_option autoImplicit false

namespace WasmMeter

/-- What to charge, and whom to tell. -/
structure MeterOptions where
  costTable : CostTable
  importModule : String
  importField : String
  meterType : ValueType
  deriving Repr, BEq

/-- The built-in costs, charged by `metering.usegas` as integers of thirty-two bits. -/
def MeterOptions.standard : MeterOptions := ⟨.builtin, "metering", "usegas", .i32⟩

/-- Why a module cannot be metered. -/
inductive MeteringError
  | duplicateImport (moduleName field : String)
  | missingSignature (body : Nat)
  | costOverflow (cost : UInt64) (type : ValueType)
  | indexOverflow (index : UInt32)
  | listing (error : ListingError)
  deriving DecidableEq, Repr

namespace MeteringError

/-- The error in words. -/
def message : MeteringError → String
  | .duplicateImport moduleName field =>
    "module already imports the metering function " ++ moduleName ++ "." ++ field
  | .missingSignature body => "no signature for function body " ++ toString body
  | .costOverflow cost type =>
    "cost " ++ toString cost.toNat ++ " does not fit in an " ++ type.name
  | .indexOverflow index =>
    "function index " ++ toString index.toNat ++ " cannot be shifted past the metering import"
  | .listing error => "invalid metering statement: " ++ error.message

/-- What lies behind the error, in words. -/
def cause? : MeteringError → Option String
  | .listing error => some error.message
  | _ => none

end MeteringError

/-! ### References -/

/-- The index of a function behind the added import. -/
def shiftIndex (meterIndex index : UInt32) : Except MeteringError UInt32 :=
  if index < meterIndex then .ok index
  else if index.toNat + 1 < UInt32.size then .ok (index + 1)
  else .error (.indexOverflow index)

/-- A call behind the added import; other instructions stay. -/
def Instruction.shiftCall (meterIndex : UInt32) (instruction : Instruction) :
    Except MeteringError Instruction :=
  match instruction.name, instruction.immediate with
  | "call", some (.varUint32 index) =>
    (shiftIndex meterIndex index).map fun index ↦ instruction.withImmediate (.varUint32 index)
  | _, _ => .ok instruction

/-- An export behind the added import; only functions are shifted. -/
def Export.shift (meterIndex : UInt32) (entry : Export) : Except MeteringError Export :=
  if entry.kind = .function then
    (shiftIndex meterIndex entry.index).map fun index ↦ { entry with index := index }
  else .ok entry

/-- An element segment behind the added import. -/
def ElementSegment.shift (meterIndex : UInt32) (segment : ElementSegment) :
    Except MeteringError ElementSegment :=
  (segment.functions.mapM (shiftIndex meterIndex)).map fun functions ↦
    { segment with functions := functions }

/-- Replaces the first element for which there is a replacement, if that succeeds. -/
def tryReplaceFirst {ε α : Type} (f : α → Option (Except ε α)) : List α → Except ε (List α)
  | [] => .ok []
  | a :: later =>
    match f a with
    | some result => result.map (· :: later)
    | none => (tryReplaceFirst f later).map (a :: ·)

namespace Module

/-- The module with its first section of a kind replaced, if that succeeds. -/
def tryUpdateFirst {ε : Type} (f : Section → Option (Except ε Section)) (m : Module) :
    Except ε Module :=
  (tryReplaceFirst f m.sections).map fun sections ↦ { m with sections := sections }

/-- The module with the references of exports, elements and the start function shifted. -/
def shiftReferences (meterIndex : UInt32) (m : Module) : Except MeteringError Module := do
  let m ← m.tryUpdateFirst fun s ↦
    s.exports?.map fun entries ↦ (entries.mapM (Export.shift meterIndex)).map .exports
  let m ← m.tryUpdateFirst fun s ↦
    s.elements?.map fun segments ↦
      (segments.mapM (ElementSegment.shift meterIndex)).map .elements
  m.tryUpdateFirst fun s ↦ s.start?.map fun index ↦ (shiftIndex meterIndex index).map .start

/-! ### The import -/

/-- The module with an empty section of a kind where it has none. -/
def ensure (id : SectionId) (m : Module) : Module :=
  if m.has id then m else (Section.empty? id).elim m m.insert

/-- The module with a signature behind the others of its first type section. -/
def addType (type : FuncType) (m : Module) : Module :=
  m.updateFirst fun s ↦ s.types?.map fun entries ↦ .types (entries ++ [type])

/-- The module with an import behind the others of its first import section. -/
def addImport (entry : Import) (m : Module) : Module :=
  m.updateFirst fun s ↦ s.imports?.map fun entries ↦ .imports (entries ++ [entry])

/-- Whether a module imports a field of a module, whatever it supplies. -/
def importsField (moduleName field : String) (m : Module) : Bool :=
  (m.imports?.getD []).any fun entry ↦ entry.moduleName == moduleName && entry.field == field

end Module

/-! ### Blocks -/

/-- Puts an instruction in front of the first block. -/
def extendFirstBlock (instruction : Instruction) :
    List (List Instruction) → List (List Instruction)
  | [] => [[instruction]]
  | block :: later => (instruction :: block) :: later

/-- Code cut behind every instruction that may pass control elsewhere. No block is empty. -/
def blocks : List Instruction → List (List Instruction)
  | [] => []
  | instruction :: later =>
    if instruction.isBranching then [instruction] :: blocks later
    else extendFirstBlock instruction (blocks later)

theorem flatten_extendFirstBlock (instruction : Instruction) (bs : List (List Instruction)) :
    (extendFirstBlock instruction bs).flatten = instruction :: bs.flatten := by
  cases bs <;> rfl

theorem flatten_blocks (code : List Instruction) : (blocks code).flatten = code := by
  induction code with
  | nil => rfl
  | cons instruction later ih =>
    rw [blocks]
    split <;> simp [flatten_extendFirstBlock, ih]

/-! ### The pass -/

/-- A pass with its options, and the statements that it has already read. -/
structure Metering where
  options : MeterOptions
  memo : Memo

/-- A step of the pass: it may fail, and it remembers statements either way. -/
abbrev MeterM := EStateM MeteringError Memo

/-- A step that remembers nothing. -/
def MeterM.ofExcept {α : Type} (result : Except MeteringError α) : MeterM α := fun memo ↦
  match result with
  | .ok a => .ok a memo
  | .error e => .error e memo

namespace MeterOptions

/-- The signature of the metering function. -/
def signature (options : MeterOptions) : FuncType := .func [options.meterType] none

/-- The module with the metering function imported. -/
def inject (options : MeterOptions) (m : Module) : Except MeteringError Module :=
  if m.importsField options.importModule options.importField then
    .error (.duplicateImport options.importModule options.importField)
  else
    let typeIndex := UInt32.ofNat (m.types?.getD []).length
    let entry : Import := ⟨options.importModule, options.importField, .function typeIndex⟩
    .ok ((m.addType options.signature).addImport entry)

/-- The signature of the body of an index. -/
def signatureOf? (m : Module) (body : Nat) : Option FuncType := do
  let typeIndex ← (← m.functions?)[body]?
  (← m.types?)[typeIndex.toNat]?

/-- What each body costs before its first instruction, from the body of an index on. -/
def startCosts (options : MeterOptions) (m : Module) :
    (body : Nat) → List FunctionBody → Except MeteringError (List UInt64)
  | _, [] => .ok []
  | index, body :: later =>
    match signatureOf? m index with
    | none => .error (.missingSignature index)
    | some signature =>
      let table := options.costTable
      let cost := saturatingAdd (table.signatureCost signature) (table.localsCost body.locals)
      (options.startCosts m (index + 1) later).map (cost :: ·)

/-- The listing of a statement. -/
def statementText (options : MeterOptions) (cost : UInt64) (meterIndex : UInt32) : String :=
  options.meterType.name ++ ".const " ++ Numeral.text cost.toNat ++ " call " ++
    Numeral.text meterIndex.toNat

/-- The largest cost that a type can be charged with. Floats are not limited. -/
def limit? (options : MeterOptions) : Option Nat :=
  match options.meterType with
  | .i32 => some 0x7fffffff
  | .i64 => some 0x7fffffffffffffff
  | .f32 | .f64 => none

/-- The instructions of a listing. -/
def read (text : String) : MeterM (List Instruction) := fun memo ↦
  match Memo.parse text memo with
  | .ok code memo => .ok code memo
  | .error e memo => .error (.listing e) memo

/-- What a statement costs itself. -/
def overhead (options : MeterOptions) : MeterM UInt64 := do
  let code ← read (options.statementText 0 0)
  pure (options.costTable.codeCost code)

/-- The instructions that charge a cost. -/
def statement (options : MeterOptions) (cost : UInt64) (meterIndex : UInt32) :
    MeterM (List Instruction) :=
  if options.limit?.any fun limit ↦ limit < cost.toNat then
    MeterM.ofExcept (.error (.costOverflow cost options.meterType))
  else read (options.statementText cost meterIndex)

/-- A block behind its statement. Blocks that cost nothing have none. -/
def meterBlock (options : MeterOptions) (overhead : UInt64) (meterIndex : UInt32)
    (startCost : UInt64) (block : List Instruction) : MeterM (List Instruction) := do
  let cost := saturatingAdd startCost (options.costTable.codeCost block)
  let charge ←
    if cost = 0 then pure [] else options.statement (saturatingAdd cost overhead) meterIndex
  let code ← MeterM.ofExcept (block.mapM (Instruction.shiftCall meterIndex))
  pure (charge ++ code)

/-- Blocks behind their statements, the first of which also pays the start cost. -/
def meterBlocks (options : MeterOptions) (overhead : UInt64) (meterIndex : UInt32) :
    (startCost : UInt64) → List (List Instruction) → MeterM (List Instruction)
  | _, [] => pure []
  | startCost, block :: later => do
    let first ← options.meterBlock overhead meterIndex startCost block
    let rest ← options.meterBlocks overhead meterIndex 0 later
    pure (first ++ rest)

/-- Bodies with their code metered, each with its start cost. -/
def meterBodies (options : MeterOptions) (overhead : UInt64) (meterIndex : UInt32) :
    List (FunctionBody × UInt64) → MeterM (List FunctionBody)
  | [] => pure []
  | (body, startCost) :: later => do
    let code ← options.meterBlocks overhead meterIndex startCost (blocks body.code)
    let rest ← options.meterBodies overhead meterIndex later
    pure ({ body with code := code } :: rest)

/-- The metered module. -/
def meterModule (options : MeterOptions) (m : Module) : MeterM Module := do
  let m := (m.ensure .type).ensure .import
  let meterIndex := UInt32.ofNat m.importedFunctions
  let m ← MeterM.ofExcept (options.inject m)
  let m ← MeterM.ofExcept (m.shiftReferences meterIndex)
  let bodies := m.code?.getD []
  let startCosts ← MeterM.ofExcept (options.startCosts m 0 bodies)
  let overhead ← options.overhead
  let metered ← options.meterBodies overhead meterIndex (bodies.zip startCosts)
  pure (m.updateFirst fun s ↦ s.code?.map fun _ ↦ .code metered)

end MeterOptions

namespace Metering

/-- The pass that has read no statement yet. -/
def new (options : MeterOptions) : Metering := ⟨options, .empty⟩

/-- The metered module, and the pass to go on with. -/
def meter (metering : Metering) (m : Module) : Except MeteringError Module × Metering :=
  match metering.options.meterModule m metering.memo with
  | .ok metered memo => (.ok metered, { metering with memo := memo })
  | .error e memo => (.error e, { metering with memo := memo })

end Metering

/-- The metered module. -/
def Module.meter (m : Module) (options : MeterOptions) : Except MeteringError Module :=
  ((Metering.new options).meter m).1

end WasmMeter
