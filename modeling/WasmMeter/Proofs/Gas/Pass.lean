import WasmMeter.Proofs.Gas.References

/-!
# What the pass comes to

The pass fails with the first of its errors and otherwise answers the module that
`MeterOptions.metered` describes without failures and without a memo (`Module.meter_eq`). The
descriptions follow the pass: `paidBlock` is what becomes of a block, `paidBody` of a body, and each
has beside it the error that it may have.
-/

set_option autoImplicit false

namespace WasmMeter

open MeterM

namespace MeterOptions

/-! ### Blocks and bodies -/

/-- What is paid for a block, the statement that pays aside. -/
def blockCost (options : MeterOptions) (startCost : UInt64) (block : List Instruction) : UInt64 :=
  saturatingAdd startCost (options.costTable.codeCost block)

/-- Why a block cannot be paid for. -/
def chargeError? (options : MeterOptions) (startCost : UInt64) (block : List Instruction) :
    Option MeteringError :=
  if options.blockCost startCost block = 0 then none
  else options.limitError? (saturatingAdd (options.blockCost startCost block) options.chargeCost)

/-- The statement in front of a block. -/
def blockCharge (options : MeterOptions) (meterIndex : UInt32) (startCost : UInt64)
    (block : List Instruction) : List Instruction :=
  if options.blockCost startCost block = 0 then []
  else
    options.charge (saturatingAdd (options.blockCost startCost block) options.chargeCost).toNat
      meterIndex

/-- Why a block cannot be metered. -/
def blockError? (options : MeterOptions) (meterIndex : UInt32) (startCost : UInt64)
    (block : List Instruction) : Option MeteringError :=
  (options.chargeError? startCost block).or (block.findSome? (Instruction.callError? meterIndex))

/-- A block behind the statement that pays for it. -/
def paidBlock (options : MeterOptions) (meterIndex : UInt32) (startCost : UInt64)
    (block : List Instruction) : List Instruction :=
  options.blockCharge meterIndex startCost block ++
    block.map (Instruction.mapCallee (shifted meterIndex))

/-- A block is metered, unless its cost is past the limit or a call cannot be shifted. -/
theorem meterBlock_comesTo (options : MeterOptions) (meterIndex : UInt32) (startCost : UInt64)
    (block : List Instruction) :
    ComesTo (options.meterBlock options.chargeCost meterIndex startCost block)
      (outcome (options.blockError? meterIndex startCost block)
        (options.paidBlock meterIndex startCost block)) := by
  have hcode : ComesTo (MeterM.ofExcept (block.mapM (Instruction.shiftCall meterIndex)))
      (outcome (block.findSome? (Instruction.callError? meterIndex))
        (block.map (Instruction.mapCallee (shifted meterIndex)))) := by
    rw [mapM_eq_outcome (Instruction.shiftCall_eq meterIndex)]
    exact .ofExcept _
  have hrest (charge : List Instruction) := hcode.bind_pure (charge ++ ·)
  unfold blockError? paidBlock chargeError? blockCharge
  show ComesTo (if options.blockCost startCost block = 0 then _ else _) _
  by_cases hfree : options.blockCost startCost block = 0
  · rw [if_pos hfree, if_pos hfree, if_pos hfree]
    have hnone : ComesTo (pure ([] : List Instruction)) (outcome none []) := .pure []
    exact hnone.bind_outcome (hrest [])
  · rw [if_neg hfree, if_neg hfree, if_neg hfree]
    exact (options.statement_comesTo _ meterIndex).bind_outcome (hrest _)

/-- Why blocks cannot be metered, the first of which pays the start cost. -/
def blocksError? (options : MeterOptions) (meterIndex : UInt32) :
    (startCost : UInt64) → List (List Instruction) → Option MeteringError
  | _, [] => none
  | startCost, block :: later =>
    (options.blockError? meterIndex startCost block).or (options.blocksError? meterIndex 0 later)

/-- Blocks behind the statements that pay for them, the first of which pays the start cost. -/
def paidBlocks (options : MeterOptions) (meterIndex : UInt32) :
    (startCost : UInt64) → List (List Instruction) → List Instruction
  | _, [] => []
  | startCost, block :: later =>
    options.paidBlock meterIndex startCost block ++ options.paidBlocks meterIndex 0 later

theorem meterBlocks_comesTo (options : MeterOptions) (meterIndex : UInt32) (startCost : UInt64)
    (bs : List (List Instruction)) :
    ComesTo (options.meterBlocks options.chargeCost meterIndex startCost bs)
      (outcome (options.blocksError? meterIndex startCost bs)
        (options.paidBlocks meterIndex startCost bs)) := by
  induction bs generalizing startCost with
  | nil => exact .pure []
  | cons block later ih =>
    refine (options.meterBlock_comesTo meterIndex startCost block).bind_outcome ?_
    exact (ih 0).bind_pure (options.paidBlock meterIndex startCost block ++ ·)

/-- Why a body cannot be metered. -/
def bodyError? (options : MeterOptions) (meterIndex : UInt32) (body : FunctionBody × UInt64) :
    Option MeteringError :=
  options.blocksError? meterIndex body.2 (blocks body.1.code)

/-- A body of which the blocks are paid for, the first one together with the start cost. -/
def paidBody (options : MeterOptions) (meterIndex : UInt32) (body : FunctionBody × UInt64) :
    FunctionBody :=
  { body.1 with code := options.paidBlocks meterIndex body.2 (blocks body.1.code) }

theorem meterBodies_comesTo (options : MeterOptions) (meterIndex : UInt32)
    (bodies : List (FunctionBody × UInt64)) :
    ComesTo (options.meterBodies options.chargeCost meterIndex bodies)
      (outcome (bodies.findSome? (options.bodyError? meterIndex))
        (bodies.map (options.paidBody meterIndex))) := by
  induction bodies with
  | nil => exact .pure []
  | cons body later ih =>
    rw [findSome?_cons_eq_or]
    refine (options.meterBlocks_comesTo meterIndex body.2 (blocks body.1.code)).bind_outcome ?_
    exact ih.bind_pure (options.paidBody meterIndex body :: ·)

/-! ### Start costs -/

/-- Why there is no start cost for the body of an index. -/
def signatureError? (m : Module) (body : FunctionBody × Nat) : Option MeteringError :=
  if (signatureOf? m body.2).isSome then none else some (.missingSignature body.2)

/-- What the body of an index costs before its first instruction. -/
def startCost (options : MeterOptions) (m : Module) (body : FunctionBody × Nat) : UInt64 :=
  saturatingAdd ((signatureOf? m body.2).elim 0 options.costTable.signatureCost)
    (options.costTable.localsCost body.1.locals)

/-- Every body has a start cost, or the first one without a signature is an error. -/
theorem startCosts_eq (options : MeterOptions) (m : Module) (index : Nat)
    (bodies : List FunctionBody) :
    options.startCosts m index bodies =
      outcome ((bodies.zipIdx index).findSome? (signatureError? m))
        ((bodies.zipIdx index).map (options.startCost m)) := by
  induction bodies generalizing index with
  | nil => rfl
  | cons body later ih =>
    rw [startCosts, List.zipIdx_cons, List.findSome?_cons, List.map_cons]
    cases hsignature : signatureOf? m index with
    | none =>
      have herror : signatureError? m (body, index) = some (.missingSignature index) := by
        rw [signatureError?, hsignature]
        rfl
      rw [herror]
      rfl
    | some signature =>
      have herror : signatureError? m (body, index) = none := by
        rw [signatureError?, hsignature]
        rfl
      have hcost : options.startCost m (body, index) = saturatingAdd
          (options.costTable.signatureCost signature)
          (options.costTable.localsCost body.locals) := by
        rw [startCost, hsignature]
        rfl
      rw [herror, hcost]
      simp only
      rw [ih, outcome_map]

/-! ### Modules -/

/-- The module with a type and an import section. -/
def withSections (m : Module) : Module := (m.ensure .type).ensure .import

/-- Why the metering function cannot be imported. -/
def importError? (options : MeterOptions) (m : Module) : Option MeteringError :=
  if m.importsField options.importModule options.importField then
    some (.duplicateImport options.importModule options.importField)
  else none

/-- The import of the metering function. -/
def meterImport (options : MeterOptions) (m : Module) : Import :=
  ⟨options.importModule, options.importField, .function (UInt32.ofNat (m.types?.getD []).length)⟩

/-- The module with the metering function imported. -/
def withImport (options : MeterOptions) (m : Module) : Module :=
  (m.addType options.signature).addImport (options.meterImport m)

theorem inject_eq (options : MeterOptions) (m : Module) :
    options.inject m = outcome (options.importError? m) (options.withImport m) := by
  unfold inject importError?
  split <;> rfl

/-- The index of the metering function. -/
def meterIndexOf (m : Module) : UInt32 := UInt32.ofNat (withSections m).importedFunctions

/-- The module with the metering function imported, and the references that are not in code shifted
behind it. -/
def prepared (options : MeterOptions) (m : Module) : Module :=
  (options.withImport (withSections m)).shifted (meterIndexOf m)

/-- The bodies of a module, each with what it costs before its first instruction. -/
def costedBodies (options : MeterOptions) (m : Module) : List (FunctionBody × UInt64) :=
  ((m.code?.getD []).zipIdx).map fun body ↦ (body.1, options.startCost m body)

/-- The module that the pass answers. -/
def metered (options : MeterOptions) (m : Module) : Module :=
  (options.prepared m).updateFirst fun s ↦ s.code?.map fun _ ↦
    .code ((options.costedBodies (options.prepared m)).map (options.paidBody (meterIndexOf m)))

/-- Why a module cannot be metered. -/
def meterError? (options : MeterOptions) (m : Module) : Option MeteringError :=
  (options.importError? (withSections m)).or
    (((options.withImport (withSections m)).shiftError? (meterIndexOf m)).or
      ((((options.prepared m).code?.getD []).zipIdx.findSome?
        (signatureError? (options.prepared m))).or
        ((options.costedBodies (options.prepared m)).findSome?
          (options.bodyError? (meterIndexOf m)))))

theorem zip_map_zipIdx {α β : Type} (f : α × Nat → β) (list : List α) (index : Nat) :
    list.zip ((list.zipIdx index).map f) = (list.zipIdx index).map fun a ↦ (a.1, f a) := by
  induction list generalizing index with
  | nil => rfl
  | cons a later ih =>
    rw [List.zipIdx_cons, List.map_cons, List.zip_cons_cons, ih, List.map_cons]

/-- The steps of the pass one after another. -/
theorem meterModule_comesTo (options : MeterOptions) (m : Module) :
    ComesTo (options.meterModule m) (outcome (options.meterError? m) (options.metered m)) := by
  have hinject : ComesTo (MeterM.ofExcept (options.inject (withSections m)))
      (outcome (options.importError? (withSections m)) (options.withImport (withSections m))) := by
    rw [inject_eq]
    exact .ofExcept _
  have hshift : ComesTo (MeterM.ofExcept
      ((options.withImport (withSections m)).shiftReferences (meterIndexOf m)))
      (outcome ((options.withImport (withSections m)).shiftError? (meterIndexOf m))
        (options.prepared m)) := by
    rw [Module.shiftReferences_eq]
    exact .ofExcept _
  have hcosts : ComesTo (MeterM.ofExcept (options.startCosts (options.prepared m) 0
      ((options.prepared m).code?.getD [])))
      (outcome (((options.prepared m).code?.getD []).zipIdx.findSome?
          (signatureError? (options.prepared m)))
        (((options.prepared m).code?.getD []).zipIdx.map
          (options.startCost (options.prepared m)))) := by
    rw [startCosts_eq]
    exact .ofExcept _
  have hoverhead : ComesTo options.overhead (outcome none options.chargeCost) :=
    options.overhead_comesTo
  have hbodies := options.meterBodies_comesTo (meterIndexOf m)
    (options.costedBodies (options.prepared m))
  refine hinject.bind_outcome (hshift.bind_outcome (hcosts.bind_outcome ?_))
  -- The cost of a statement is computed in between, which cannot fail.
  rw [← Option.none_or (o := (options.costedBodies (options.prepared m)).findSome? _)]
  refine hoverhead.bind_outcome ?_
  rw [zip_map_zipIdx]
  exact hbodies.bind_pure fun bodies ↦
    (options.prepared m).updateFirst fun s ↦ s.code?.map fun _ ↦ .code bodies

end MeterOptions

/-- The pass fails with its first error, and otherwise answers the metered module. -/
theorem Module.meter_eq (m : Module) (options : MeterOptions) :
    m.meter options = outcome (options.meterError? m) (options.metered m) := by
  obtain ⟨left, -, hmeter⟩ := options.meterModule_comesTo m .empty Memo.sound_empty
  simp only [Module.meter, Metering.meter, Metering.new, hmeter]
  cases outcome (options.meterError? m) (options.metered m) <;> rfl

end WasmMeter
