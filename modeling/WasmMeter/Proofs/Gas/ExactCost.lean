import Mathlib.Algebra.BigOperators.Group.List.Basic
import Mathlib.Algebra.GroupWithZero.Nat
import WasmMeter.Gas.Cost

/-!
# Exact costs

The exact cost of code, of a signature and of locals is a sum without a bound. What a cost table
charges is that sum, or the largest cost where the sum is past it (`toNat_codeCost`,
`toNat_signatureCost`, `toNat_localsCost`): it does not matter where on the way a sum or a product
stays at the largest cost.
-/

set_option autoImplicit false

namespace WasmMeter

/-! ### Sums -/

/-- A sum stays at the largest cost if one of its parts has done so. -/
theorem min_add_min_maxCost (m n : Nat) :
    min (min m maxCost + min n maxCost) maxCost = min (m + n) maxCost := by
  omega

theorem toNat_foldl_saturatingAdd {α : Type} {cost : α → UInt64} {exact : α → Nat}
    (h : ∀ a, (cost a).toNat = min (exact a) maxCost) (list : List α) {start : UInt64} {n : Nat}
    (hstart : start.toNat = min n maxCost) :
    ((list.map cost).foldl saturatingAdd start).toNat =
      min (n + (list.map exact).sum) maxCost := by
  induction list generalizing start n with
  | nil => simpa using hstart
  | cons a later ih =>
    have hnext : (saturatingAdd start (cost a)).toNat = min (n + exact a) maxCost := by
      rw [toNat_saturatingAdd, hstart, h, min_add_min_maxCost]
    rw [List.map_cons, List.foldl_cons, ih hnext, List.map_cons, List.sum_cons, Nat.add_assoc]

/-- The sum of costs that are exact up to the largest cost is so itself. -/
theorem toNat_saturatingSum_map {α : Type} {cost : α → UInt64} {exact : α → Nat}
    (h : ∀ a, (cost a).toNat = min (exact a) maxCost) (list : List α) :
    (saturatingSum (list.map cost)).toNat = min (list.map exact).sum maxCost := by
  have hsum : ((list.map cost).foldl saturatingAdd 0).toNat =
      min (0 + (list.map exact).sum) maxCost := toNat_foldl_saturatingAdd h list rfl
  rwa [Nat.zero_add] at hsum

theorem toNat_le_maxCost (cost : UInt64) : cost.toNat ≤ maxCost := Nat.le_pred_of_lt cost.toNat_lt

theorem toNat_eq_min (cost : UInt64) : cost.toNat = min cost.toNat maxCost :=
  (Nat.min_eq_left (toNat_le_maxCost cost)).symm

namespace CostTable

/-! ### Code -/

/-- What an instruction costs. -/
def price (table : CostTable) (instruction : Instruction) : Nat :=
  (table.instructionCost instruction).toNat

/-- The sum of what the instructions cost. -/
def exactCodeCost (table : CostTable) (code : List Instruction) : Nat :=
  (code.map table.price).sum

/-- The cost of code is its exact cost up to the largest cost. -/
theorem toNat_codeCost (table : CostTable) (code : List Instruction) :
    (table.codeCost code).toNat = min (table.exactCodeCost code) maxCost :=
  toNat_saturatingSum_map (fun instruction ↦ toNat_eq_min (table.instructionCost instruction)) code

@[simp]
theorem exactCodeCost_nil (table : CostTable) : table.exactCodeCost [] = 0 := rfl

@[simp]
theorem exactCodeCost_cons (table : CostTable) (instruction : Instruction)
    (later : List Instruction) :
    table.exactCodeCost (instruction :: later) =
      table.price instruction + table.exactCodeCost later := by
  rw [exactCodeCost, List.map_cons, List.sum_cons]
  rfl

/-! ### Functions -/

/-- The sum of what the form, the parameters and the result of a signature cost. -/
def exactSignatureCost (table : CostTable) (signature : FuncType) : Nat :=
  let costs := table.signatures?
  (Cost.chargeBelow costs "form" signature.form.name).toNat +
    (signature.params.map fun param ↦ (Cost.chargeBelow costs "params" param.name).toNat).sum +
    signature.result.elim 0 fun type ↦ (Cost.chargeBelow costs "return_type" type.name).toNat

/-- The cost of a signature is its exact cost up to the largest cost. -/
theorem toNat_signatureCost (table : CostTable) (signature : FuncType) :
    (table.signatureCost signature).toNat =
      min (table.exactSignatureCost signature) maxCost := by
  have hparams := toNat_saturatingSum_map
    (fun param : ValueType ↦ toNat_eq_min (Cost.chargeBelow table.signatures? "params" param.name))
    signature.params
  have hform := toNat_eq_min (Cost.chargeBelow table.signatures? "form" signature.form.name)
  have hresult : (signature.result.elim 0 fun type ↦
      Cost.chargeBelow table.signatures? "return_type" type.name).toNat =
        min (signature.result.elim 0 fun type ↦
          (Cost.chargeBelow table.signatures? "return_type" type.name).toNat) maxCost := by
    cases signature.result with
    | none => rfl
    | some type => exact toNat_eq_min _
  rw [signatureCost, toNat_saturatingAdd, toNat_saturatingAdd, hparams, hform, hresult,
    min_add_min_maxCost (Cost.chargeBelow _ "form" _).toNat, min_add_min_maxCost]
  rfl

/-- The sum of what the locals cost, each by its type. -/
def exactLocalsCost (table : CostTable) (locals : List LocalGroup) : Nat :=
  table.locals?.elim 0 fun costs ↦
    (locals.map fun group ↦ group.count.toNat * (costs.charge group.type.name).toNat).sum

/-- The cost of locals is their exact cost up to the largest cost. -/
theorem toNat_localsCost (table : CostTable) (locals : List LocalGroup) :
    (table.localsCost locals).toNat = min (table.exactLocalsCost locals) maxCost := by
  unfold localsCost exactLocalsCost
  cases table.locals? with
  | none => rfl
  | some costs =>
    refine toNat_saturatingSum_map (fun group : LocalGroup ↦ ?_) locals
    rw [toNat_saturatingMul, UInt32.toNat_toUInt64]

/-- What a function costs before its first instruction. -/
def exactStartCost (table : CostTable) (signature : FuncType) (locals : List LocalGroup) : Nat :=
  table.exactSignatureCost signature + table.exactLocalsCost locals

theorem toNat_startCost (table : CostTable) (signature : FuncType) (locals : List LocalGroup) :
    (saturatingAdd (table.signatureCost signature) (table.localsCost locals)).toNat =
      min (table.exactStartCost signature locals) maxCost := by
  rw [toNat_saturatingAdd, toNat_signatureCost, toNat_localsCost, min_add_min_maxCost]
  rfl

end CostTable

end WasmMeter
