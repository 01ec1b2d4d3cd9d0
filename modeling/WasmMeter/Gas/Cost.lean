import WasmMeter.Section

/-!
# Cost tables

A cost table maps names to costs, and a cost is a number or another table. A number stands for a
table that has it for every name below it. A table is asked for a name and, where it lacks that, for
the name `DEFAULT`. Where a number is expected and a table found, nothing is charged.

`CostTable.signatureCost`, `CostTable.localsCost` and `CostTable.instructionCost` price the parts of
a function. Costs are sixty-four bits wide; a sum or product past that stays at the largest number
(`toNat_saturatingAdd`, `toNat_saturatingMul`).
-/

set_option autoImplicit false

namespace WasmMeter

/-! ### Saturating arithmetic -/

/-- The largest cost. -/
def maxCost : Nat := UInt64.size - 1

/-- The sum of two costs, or the largest cost where it is past that. -/
def saturatingAdd (a b : UInt64) : UInt64 := UInt64.ofNat (min (a.toNat + b.toNat) maxCost)

/-- The product of two costs, or the largest cost where it is past that. -/
def saturatingMul (a b : UInt64) : UInt64 := UInt64.ofNat (min (a.toNat * b.toNat) maxCost)

theorem min_maxCost_lt_size (n : Nat) : min n maxCost < UInt64.size :=
  Nat.lt_of_le_of_lt (Nat.min_le_right n maxCost) (by decide)

theorem toNat_saturatingAdd (a b : UInt64) :
    (saturatingAdd a b).toNat = min (a.toNat + b.toNat) maxCost := by
  rw [saturatingAdd, UInt64.toNat_ofNat', Nat.mod_eq_of_lt (min_maxCost_lt_size _)]

theorem toNat_saturatingMul (a b : UInt64) :
    (saturatingMul a b).toNat = min (a.toNat * b.toNat) maxCost := by
  rw [saturatingMul, UInt64.toNat_ofNat', Nat.mod_eq_of_lt (min_maxCost_lt_size _)]

/-- The sum of costs. -/
def saturatingSum (costs : List UInt64) : UInt64 := costs.foldl saturatingAdd 0

/-! ### Tables -/

/-- A number, or a table of costs by name. -/
inductive Cost
  | flat (cost : UInt64)
  | table (entries : List (String × Cost))
  deriving Repr, BEq

/-- Costs by name. The names are in order and none repeats. -/
abbrev CostTable := List (String × Cost)

namespace CostTable

/-- The name that stands for every name a table lacks. -/
def defaultKey : String := "DEFAULT"

/-- The table without names. -/
def empty : CostTable := []

/-- The table with the cost of a name, in the place of another cost of that name. -/
def insert (key : String) (cost : Cost) : CostTable → CostTable
  | [] => [(key, cost)]
  | (k, c) :: later =>
    if key < k then (key, cost) :: (k, c) :: later
    else if key = k then (key, cost) :: later
    else (k, c) :: insert key cost later

/-- The table of a list of entries; of two costs of one name the later one counts. -/
def ofList (entries : List (String × Cost)) : CostTable :=
  entries.foldl (fun table (key, cost) ↦ table.insert key cost) empty

/-- The table of names with numbers. -/
def ofCosts (costs : List (String × UInt64)) : CostTable :=
  ofList (costs.map fun (key, cost) ↦ (key, .flat cost))

/-- The cost of a name, or else the default. -/
def get? (table : CostTable) (key : String) : Option Cost :=
  (table.lookup key).or (table.lookup defaultKey)

end CostTable

namespace Cost

/-- The cost of a name one level below. -/
def child? (cost : Cost) (key : String) : Option Cost :=
  match cost with
  | .flat _ => some cost
  | .table entries => CostTable.get? entries key

/-- What a cost charges by itself. -/
def amount : Option Cost → UInt64
  | some (.flat cost) => cost
  | _ => 0

/-- What is charged for a name. -/
def charge (cost : Cost) (key : String) : UInt64 := amount (cost.child? key)

/-- What is charged for a name below another one. -/
def chargeBelow (cost : Option Cost) (branch key : String) : UInt64 :=
  match cost.bind fun c ↦ c.child? branch with
  | some c => c.charge key
  | none => 0

end Cost

/-! ### Prices -/

namespace CostTable

/-- The costs of signatures. -/
def signatures? (table : CostTable) : Option Cost := table.get? "type"

/-- The costs of locals. -/
def locals? (table : CostTable) : Option Cost :=
  (table.get? "code").bind fun code ↦ code.child? "locals"

/-- The costs of instructions. -/
def instructions? (table : CostTable) : Option Cost :=
  (table.get? "code").bind fun code ↦ code.child? "code"

/-- The cost of a signature: its form, its parameters and its result. -/
def signatureCost (table : CostTable) (signature : FuncType) : UInt64 :=
  let costs := table.signatures?
  let form := Cost.chargeBelow costs "form" signature.form.name
  let params := signature.params.map fun param ↦ Cost.chargeBelow costs "params" param.name
  let result := signature.result.elim 0 fun type ↦ Cost.chargeBelow costs "return_type" type.name
  saturatingAdd (saturatingAdd form (saturatingSum params)) result

/-- The cost of locals: each is charged the cost of its type. -/
def localsCost (table : CostTable) (locals : List LocalGroup) : UInt64 :=
  match table.locals? with
  | some costs =>
    saturatingSum (locals.map fun group ↦
      saturatingMul group.count.toUInt64 (costs.charge group.type.name))
  | none => 0

/-- The cost of an instruction: by its full name, or else by its name, or else the default. -/
def instructionCost (table : CostTable) (instruction : Instruction) : UInt64 :=
  match table.instructions? with
  | some (.flat cost) => cost
  | some (.table entries) =>
    Cost.amount (((entries.lookup instruction.fullName).or (entries.lookup instruction.name)).or
      (entries.lookup defaultKey))
  | none => 0

/-- The cost of code, instruction by instruction. -/
def codeCost (table : CostTable) (code : List Instruction) : UInt64 :=
  saturatingSum (code.map table.instructionCost)

end CostTable

end WasmMeter
