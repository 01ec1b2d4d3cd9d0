import WasmMeter.Proofs.Gas.Blocks
import WasmMeter.Proofs.Gas.Bodies
import WasmMeter.Proofs.Gas.ExactCost

/-!
# Metered code

`Charged` says what metered code is made of: the blocks of the code with their calls shifted, each
behind a charge unless it costs nothing. The amount of a charge is the exact cost of the block and
of the charge itself, or the largest cost where this is past it, and it is within the limit of the
type.

Two consequences follow by induction on the blocks. Nothing of the code is lost: without the charges
it is the same again but for the shift. And integers are charged exactly, since the limit of either
type lies below the largest cost.
-/

set_option autoImplicit false

namespace WasmMeter

open Instruction

/-! ### What metered code is made of -/

namespace MeterOptions

/-- The exact cost of a charge. -/
def exactOverhead (options : MeterOptions) : Nat :=
  options.costTable.exactCodeCost (options.charge 0 0)

/-- A block with its calls shifted. -/
def shiftedBlock (meterIndex : UInt32) (block : List Instruction) : List Instruction :=
  block.map (mapCallee (shifted meterIndex))

/-- Blocks behind the charges that pay for them, the first of which pays the start cost too. -/
inductive Charged (options : MeterOptions) (meterIndex : UInt32) :
    (start : Nat) → List (List Instruction) → List Instruction → Prop
  | nil {start : Nat} : Charged options meterIndex start [] []
  | free {start : Nat} {block : List Instruction} {later : List (List Instruction)}
      {code : List Instruction} (hfree : start + options.costTable.exactCodeCost block = 0)
      (hcalls : ∀ instruction ∈ block, instruction.callError? meterIndex = none)
      (hlater : Charged options meterIndex 0 later code) :
      Charged options meterIndex start (block :: later) (shiftedBlock meterIndex block ++ code)
  | paid {start amount : Nat} {block : List Instruction} {later : List (List Instruction)}
      {code : List Instruction} (hcost : start + options.costTable.exactCodeCost block ≠ 0)
      (hamount : amount =
        min (start + options.costTable.exactCodeCost block + options.exactOverhead) maxCost)
      (hlimit : ∀ limit ∈ options.limit?, amount ≤ limit)
      (hcalls : ∀ instruction ∈ block, instruction.callError? meterIndex = none)
      (hlater : Charged options meterIndex 0 later code) :
      Charged options meterIndex start (block :: later)
        (options.charge amount meterIndex ++ (shiftedBlock meterIndex block ++ code))

theorem toNat_chargeCost (options : MeterOptions) :
    options.chargeCost.toNat = min options.exactOverhead maxCost :=
  options.costTable.toNat_codeCost (options.charge 0 0)

/-- What the pass computes for a block is its exact cost up to the largest cost. -/
theorem toNat_blockCost {options : MeterOptions} {startCost : UInt64} {start : Nat}
    (hstart : startCost.toNat = min start maxCost) (block : List Instruction) :
    (options.blockCost startCost block).toNat =
      min (start + options.costTable.exactCodeCost block) maxCost := by
  rw [blockCost, toNat_saturatingAdd, hstart, CostTable.toNat_codeCost, min_add_min_maxCost]

/-- A block costs nothing if its exact cost is zero, whatever has stayed at the largest cost. -/
theorem blockCost_eq_zero_iff {options : MeterOptions} {startCost : UInt64} {start : Nat}
    (hstart : startCost.toNat = min start maxCost) {block : List Instruction} :
    options.blockCost startCost block = 0 ↔
      start + options.costTable.exactCodeCost block = 0 := by
  have hpos : 0 < maxCost := by decide
  rw [← UInt64.toNat_inj, toNat_blockCost hstart, UInt64.toNat_zero]
  omega

/-- The pass, where it has no error, charges for the blocks. -/
theorem charged_paidBlocks {options : MeterOptions} {meterIndex : UInt32}
    {bs : List (List Instruction)} {startCost : UInt64} {start : Nat}
    (hstart : startCost.toNat = min start maxCost)
    (herror : options.blocksError? meterIndex startCost bs = none) :
    Charged options meterIndex start bs (options.paidBlocks meterIndex startCost bs) := by
  induction bs generalizing startCost start with
  | nil => exact .nil
  | cons block later ih =>
    obtain ⟨hblock, hlater⟩ := Option.or_eq_none_iff.mp herror
    obtain ⟨hcharge, hcalls⟩ := Option.or_eq_none_iff.mp hblock
    have hcalls := List.findSome?_eq_none_iff.mp hcalls
    have hrest : Charged options meterIndex 0 later (options.paidBlocks meterIndex 0 later) :=
      ih rfl hlater
    rw [paidBlocks, paidBlock, blockCharge, List.append_assoc]
    by_cases hfree : options.blockCost startCost block = 0
    · rw [if_pos hfree]
      exact .free ((blockCost_eq_zero_iff hstart).mp hfree) hcalls hrest
    · rw [chargeError?, if_neg hfree] at hcharge
      rw [if_neg hfree]
      refine .paid (mt (blockCost_eq_zero_iff hstart).mpr hfree) ?_
        (limitError?_eq_none_iff.mp hcharge) hcalls hrest
      rw [toNat_saturatingAdd, toNat_blockCost hstart, toNat_chargeCost, min_add_min_maxCost]

/-- The bodies of the first code section, before the pass and after it. -/
theorem exists_bodies_of_meter_eq_ok {options : MeterOptions} {m m' : Module}
    (h : m.meter options = .ok m') {bodies : List FunctionBody} (hbodies : m.code? = some bodies) :
    ∃ bodies', m'.code? = some bodies' ∧ bodies'.length = bodies.length := by
  have hlength := length_code?_of_meter_eq_ok h
  rw [hbodies] at hlength
  exact Option.map_eq_some_iff.mp hlength

/-- What becomes of the code of a body. If the body had a signature before the pass, it is charged
for this one. -/
theorem exists_charged_of_meter_eq_ok {options : MeterOptions} {m m' : Module}
    (h : m.meter options = .ok m') {bodies bodies' : List FunctionBody}
    (hbodies : m.code? = some bodies) (hbodies' : m'.code? = some bodies') {index : Nat}
    {body : FunctionBody} (hbody : bodies[index]? = some body) :
    ∃ signature code,
      bodies'[index]? = some { body with code := code } ∧
      signatureOf? m' index = some signature ∧
      (∀ original, signatureOf? m index = some original → signature = original) ∧
      Charged options (meterIndexOf m) (options.costTable.exactStartCost signature body.locals)
        (blocks body.code) code := by
  obtain ⟨signature, startCost, hsignature, rfl, herror, hbody'⟩ :=
    exists_body_of_meter_eq_ok h hbodies hbodies' hbody
  refine ⟨signature, _, hbody', hsignature, fun original horiginal ↦ ?_,
    charged_paidBlocks (CostTable.toNat_startCost _ signature body.locals) herror⟩
  rw [signatureOf?_of_meter_eq_ok h horiginal] at hsignature
  exact (Option.some.inj hsignature).symm

end MeterOptions

end WasmMeter
