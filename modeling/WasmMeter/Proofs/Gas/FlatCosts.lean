import Mathlib.Data.List.Forall2
import WasmMeter.Gas.Metering
import WasmMeter.Proofs.Gas.Prices

/-!
# Numbers above the last level

A number stands for every name below it, and so does a table that has the number as its default and
no other entry. A walk cannot tell them apart unless it ends there (`Cost.agreesFrom_defaultOnly`),
and a difference on some level shows one level less further up (`Cost.AgreesFrom.table`). Prices are
three levels below a table. So it does not matter whether one of its own numbers, or one of a table
directly in it, is the one or the other (`CostTable.Unfolds.chargesAlike`).

The pass asks a table for nothing but what it charges for signatures, locals and instructions. Two
tables that charge alike therefore meter every module alike (`CostTable.ChargesAlike.meter`).
-/

set_option autoImplicit false

namespace WasmMeter

/-! ### Walks that go on -/

namespace Cost

/-- The table with a number for every name. -/
def defaultOnly (cost : UInt64) : Cost := .table [(CostTable.defaultKey, .flat cost)]

/-- Every walk of so many levels or more comes to the same number from both costs. -/
def AgreesFrom (count : Nat) (cost cost' : Cost) : Prop :=
  ∀ levels : List (List String), count ≤ levels.length →
    amount (cost.reach? levels) = amount (cost'.reach? levels)

theorem AgreesFrom.refl (count : Nat) (cost : Cost) : AgreesFrom count cost cost := fun _ _ ↦ rfl

/-- A default is found by every name. -/
theorem entry?_default (cost : Cost) (names : List String) :
    CostTable.entry? [(CostTable.defaultKey, cost)] names = some cost := by
  unfold CostTable.entry?
  induction names with
  | nil => rfl
  | cons name later ih =>
    rw [List.cons_append, List.findSome?_cons, ih, List.lookup_cons]
    cases name == CostTable.defaultKey <;> rfl

/-- A number is told from the table with this default only by a walk that ends on them. -/
theorem agreesFrom_defaultOnly (cost : UInt64) : AgreesFrom 1 (.flat cost) (defaultOnly cost) := by
  intro levels hlevels
  cases levels with
  | nil => exact absurd hlevels (by decide)
  | cons names later =>
    rw [reach?_flat, defaultOnly, reach?, entry?_default, Option.bind_some, reach?_flat]

end Cost

namespace CostTable

/-- Two tables have the same names, with related costs. -/
def EntriesRelate (R : Cost → Cost → Prop) : CostTable → CostTable → Prop :=
  List.Forall₂ fun entry entry' ↦ entry.1 = entry'.1 ∧ R entry.2 entry'.2

variable {R : Cost → Cost → Prop} {entries entries' : CostTable}

/-- Tables that differ in the cost of one entry. -/
theorem entriesRelate_replaced (hrefl : ∀ cost, R cost cost) {cost cost' : Cost} (h : R cost cost')
    (front behind : CostTable) (key : String) :
    EntriesRelate R (front ++ (key, cost) :: behind) (front ++ (key, cost') :: behind) := by
  have hsame (entries : CostTable) : EntriesRelate R entries entries :=
    List.forall₂_same.mpr fun entry _ ↦ ⟨rfl, hrefl entry.2⟩
  exact List.rel_append (hsame front) (.cons ⟨rfl, h⟩ (hsame behind))

theorem EntriesRelate.lookup (h : EntriesRelate R entries entries') (key : String) :
    Option.Rel R (List.lookup key entries) (List.lookup key entries') := by
  induction h with
  | nil => exact .none
  | @cons entry entry' later later' hentry _ ih =>
    obtain ⟨name, cost⟩ := entry
    obtain ⟨name', cost'⟩ := entry'
    obtain ⟨rfl, hcost⟩ := hentry
    rw [List.lookup_cons, List.lookup_cons]
    cases key == name with
    | false => exact ih
    | true => exact .some hcost

theorem EntriesRelate.entry? (h : EntriesRelate R entries entries') (names : List String) :
    Option.Rel R (entries.entry? names) (entries'.entry? names) := by
  unfold CostTable.entry?
  induction names ++ [defaultKey] with
  | nil => exact .none
  | cons name later ih =>
    rw [List.findSome?_cons, List.findSome?_cons]
    have hfirst := h.lookup name
    generalize List.lookup name entries = found, List.lookup name entries' = found' at hfirst
    cases hfirst with
    | none => exact ih
    | some hcost => exact .some hcost

end CostTable

/-- A difference between entries shows one level less further up. -/
theorem Cost.AgreesFrom.table {count : Nat} {entries entries' : CostTable}
    (h : CostTable.EntriesRelate (AgreesFrom count) entries entries') :
    AgreesFrom (count + 1) (.table entries) (.table entries') := by
  intro levels hlevels
  cases levels with
  | nil => exact absurd hlevels (by simp)
  | cons names later =>
    have hentry := h.entry? names
    rw [reach?, reach?]
    generalize CostTable.entry? entries names = found at hentry
    generalize CostTable.entry? entries' names = found' at hentry
    cases hentry with
    | none => rfl
    | some hcost => exact hcost later (Nat.le_of_succ_le_succ hlevels)

namespace CostTable

/-- One number is turned into a table with this number as its default, at a depth: the depth is zero
for the entries of the table, one for those of a table directly in it, and so on. -/
inductive Unfolds : (depth : Nat) → CostTable → CostTable → Prop
  | here (front behind : CostTable) (key : String) (cost : UInt64) :
    Unfolds 0 (front ++ (key, .flat cost) :: behind)
      (front ++ (key, .defaultOnly cost) :: behind)
  | inside {depth : Nat} {entries entries' : CostTable} (front behind : CostTable) (key : String)
      (hentries : Unfolds depth entries entries') :
    Unfolds (depth + 1) (front ++ (key, .table entries) :: behind)
      (front ++ (key, .table entries') :: behind)

/-- Walks that go on below the number come to the same. -/
theorem Unfolds.agreesFrom {depth : Nat} {table table' : CostTable}
    (h : Unfolds depth table table') :
    Cost.AgreesFrom (depth + 2) (.table table) (.table table') := by
  induction h with
  | here front behind key cost =>
    have hcost := Cost.agreesFrom_defaultOnly cost
    exact .table (entriesRelate_replaced (.refl 1) hcost front behind key)
  | @inside depth _ _ front behind key _ ih =>
    exact .table (entriesRelate_replaced (.refl (depth + 2)) ih front behind key)

/-! ### Tables that charge alike -/

/-- Two tables charge the same for everything that they price. -/
structure ChargesAlike (table table' : CostTable) : Prop where
  signature : table.signatureCost = table'.signatureCost
  locals : table.localsCost = table'.localsCost
  instruction : table.instructionCost = table'.instructionCost

theorem length_of_mem_signatureLevels {signature : FuncType} {levels : List (List String)}
    (hlevels : levels ∈ signatureLevels signature) : levels.length = 3 := by
  simp only [signatureLevels, List.mem_cons, List.mem_append, List.mem_map] at hlevels
  obtain rfl | ⟨_, _, rfl⟩ | ⟨_, _, rfl⟩ := hlevels <;> rfl

/-- Prices are found three levels below a table. -/
theorem chargesAlike_of_agreesFrom {table table' : CostTable}
    (h : Cost.AgreesFrom 3 (.table table) (.table table')) : table.ChargesAlike table' := by
  have hprice {levels : List (List String)} (hlevels : levels.length = 3) :
      table.numberAt levels = table'.numberAt levels :=
    congrArg UInt64.toNat (h levels (Nat.le_of_eq hlevels.symm))
  refine ⟨funext fun signature ↦ ?_, funext fun locals ↦ ?_, funext fun instruction ↦ ?_⟩
  · have hparts : (signatureLevels signature).map table.numberAt =
        (signatureLevels signature).map table'.numberAt :=
      List.map_congr_left fun levels hlevels ↦ hprice (length_of_mem_signatureLevels hlevels)
    rw [← UInt64.toNat_inj, toNat_signatureCost, toNat_signatureCost, exactSignatureCost_eq,
      exactSignatureCost_eq, hparts]
  · rw [← UInt64.toNat_inj, toNat_localsCost, toNat_localsCost, exactLocalsCost_eq,
      exactLocalsCost_eq]
    simp only [hprice (show (localLevels _).length = 3 from rfl)]
  · rw [← UInt64.toNat_inj, toNat_instructionCost, toNat_instructionCost]
    exact hprice rfl

theorem Unfolds.chargesAlike {depth : Nat} {table table' : CostTable}
    (h : Unfolds depth table table') (hdepth : depth ≤ 1) : table.ChargesAlike table' :=
  chargesAlike_of_agreesFrom fun levels hlevels ↦ h.agreesFrom levels (by omega)

theorem ChargesAlike.code {table table' : CostTable} (h : table.ChargesAlike table') :
    table.codeCost = table'.codeCost := by
  funext code
  rw [codeCost, codeCost, h.instruction]

end CostTable

/-! ### The pass -/

namespace MeterOptions

/-- The options with another table. -/
def withTable (options : MeterOptions) (table : CostTable) : MeterOptions :=
  { options with costTable := table }

variable (options : MeterOptions) {table table' : CostTable} (h : table.ChargesAlike table')

include h

theorem startCosts_withTable (m : Module) (index : Nat) (bodies : List FunctionBody) :
    (options.withTable table).startCosts m index bodies =
      (options.withTable table').startCosts m index bodies := by
  induction bodies generalizing index with
  | nil => rfl
  | cons body later ih =>
    rw [startCosts, startCosts, ih]
    simp only [withTable, h.signature, h.locals]

theorem overhead_withTable :
    (options.withTable table).overhead = (options.withTable table').overhead := by
  unfold overhead
  simp only [withTable, h.code]
  rfl

theorem meterBlock_withTable (overhead : UInt64) (meterIndex : UInt32) (startCost : UInt64)
    (block : List Instruction) :
    (options.withTable table).meterBlock overhead meterIndex startCost block =
      (options.withTable table').meterBlock overhead meterIndex startCost block := by
  unfold meterBlock
  simp only [withTable, h.code]
  rfl

theorem meterBlocks_withTable (overhead : UInt64) (meterIndex : UInt32) (startCost : UInt64)
    (bs : List (List Instruction)) :
    (options.withTable table).meterBlocks overhead meterIndex startCost bs =
      (options.withTable table').meterBlocks overhead meterIndex startCost bs := by
  induction bs generalizing startCost with
  | nil => rfl
  | cons block later ih =>
    rw [meterBlocks, meterBlocks, meterBlock_withTable options h, ih]

theorem meterBodies_withTable (overhead : UInt64) (meterIndex : UInt32)
    (bodies : List (FunctionBody × UInt64)) :
    (options.withTable table).meterBodies overhead meterIndex bodies =
      (options.withTable table').meterBodies overhead meterIndex bodies := by
  induction bodies with
  | nil => rfl
  | cons body later ih =>
    rw [meterBodies, meterBodies, meterBlocks_withTable options h, ih]

theorem meterModule_withTable (m : Module) :
    (options.withTable table).meterModule m = (options.withTable table').meterModule m := by
  unfold meterModule
  simp only [startCosts_withTable options h, overhead_withTable options h,
    meterBodies_withTable options h]
  rfl

end MeterOptions

/-- Tables that charge alike meter every module alike. -/
theorem CostTable.ChargesAlike.meter {table table' : CostTable} (h : table.ChargesAlike table')
    (options : MeterOptions) (m : Module) :
    m.meter (options.withTable table) = m.meter (options.withTable table') := by
  simp only [Module.meter, Metering.meter, Metering.new, options.meterModule_withTable h]
  cases (options.withTable table').meterModule m .empty <;> rfl

/-- One of the numbers of a table, or of a table directly in it, may be the default of a table of
its own instead. Every signature, all locals and every instruction are charged the same then, and
for every module the pass has the same result or the same error. -/
theorem CostTable.Unfolds.unnoticed {depth : Nat} {table table' : CostTable}
    (h : Unfolds depth table table') (hdepth : depth ≤ 1) :
    (∀ signature, table.signatureCost signature = table'.signatureCost signature) ∧
    (∀ locals, table.localsCost locals = table'.localsCost locals) ∧
    (∀ instruction, table.instructionCost instruction = table'.instructionCost instruction) ∧
    ∀ (moduleName field : String) (type : ValueType) (m : Module),
      m.meter ⟨table, moduleName, field, type⟩ = m.meter ⟨table', moduleName, field, type⟩ := by
  have halike := h.chargesAlike hdepth
  exact ⟨congrFun halike.signature, congrFun halike.locals, congrFun halike.instruction,
    fun moduleName field type m ↦ halike.meter ⟨table, moduleName, field, type⟩ m⟩

/-- A table with the default of its instructions on the last level, or above it. -/
def CostTable.byDefault (instructions : Cost) : CostTable :=
  [("code", .table [("code", instructions), ("locals", .flat 5)]), ("type", .flat 7)]

theorem CostTable.Unfolds.unnoticed_byDefault :
    Unfolds 1 (.byDefault (.flat 2)) (.byDefault (.table [("DEFAULT", .flat 2)])) ∧
    1 ≤ 1 ∧
    ((byDefault (.table [("DEFAULT", .flat 2)])).instructionCost ⟨"nop", none, none⟩).toNat = 2 ∧
    (Module.mk .standard [.functions [0], .code [⟨[], [⟨"end", none, none⟩]⟩]]).meter
        ⟨.byDefault (.flat 2), "metering", "usegas", .i64⟩ =
      (Module.mk .standard [.functions [0], .code [⟨[], [⟨"end", none, none⟩]⟩]]).meter
        ⟨.byDefault (.table [("DEFAULT", .flat 2)]), "metering", "usegas", .i64⟩ := by
  have h : Unfolds 1 (.byDefault (.flat 2)) (.byDefault (.table [("DEFAULT", .flat 2)])) :=
    .inside [] [("type", .flat 7)] "code" (.here [] [("locals", .flat 5)] "code" 2)
  obtain ⟨-, -, hinstruction, hmeter⟩ := unnoticed h (Nat.le_refl 1)
  refine ⟨h, Nat.le_refl 1, ?_, hmeter "metering" "usegas" .i64 _⟩
  rw [← hinstruction]
  rfl

/-- On the last level itself a table charges nothing. -/
example :
    ((CostTable.byDefault (.table [("DEFAULT", .flat 2)])).instructionCost
      ⟨"nop", none, none⟩).toNat = 2 ∧
    ((CostTable.byDefault (.table [("DEFAULT", .defaultOnly 2)])).instructionCost
      ⟨"nop", none, none⟩).toNat = 0 := by
  decide

end WasmMeter
