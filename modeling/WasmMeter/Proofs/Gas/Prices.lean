import WasmMeter.Proofs.Gas.ExactCost

/-!
# Prices of names

The price of a name is found by walking down a cost table, level by level (`Cost.reach?`). At each
level the entry of the name counts, or else the default. A number stands for every name below it, so
that a walk that meets one ends on it, however many levels are left. A walk that ends on a table, or
finds no entry, charges nothing. Instructions have two names on their last level, of which the full
one is tried first.

What a table charges for a signature, for locals and for an instruction is the sum of the prices of
their names, or the largest cost where the sum is past it (`CostTable.charges_exact`). The sums do
not depend on the order of parameters and locals, nor on how locals of one type are grouped, and so
neither does what is charged.
-/

set_option autoImplicit false

namespace WasmMeter

/-! ### Walks -/

/-- The entry of the first of the names that has one, or else the default. -/
def CostTable.entry? (table : CostTable) (names : List String) : Option Cost :=
  (names ++ [defaultKey]).findSome? fun name ↦ table.lookup name

namespace Cost

/-- Walks down from a cost. A level is the names that are tried on it. -/
def reach? : Cost → (levels : List (List String)) → Option Cost
  | cost, [] => some cost
  | .flat cost, _ :: _ => some (.flat cost)
  | .table entries, names :: later =>
    (CostTable.entry? entries names).bind fun below ↦ below.reach? later

@[simp]
theorem reach?_flat (cost : UInt64) (levels : List (List String)) :
    (flat cost).reach? levels = some (.flat cost) := by
  cases levels <;> rfl

@[simp]
theorem reach?_nil (cost : Cost) : cost.reach? [] = some cost := by
  cases cost <;> rfl

/-- A level with one name leads to the cost of this name. -/
theorem reach?_cons_singleton (cost : Cost) (key : String) (later : List (List String)) :
    cost.reach? ([key] :: later) = (cost.child? key).bind fun below ↦ below.reach? later := by
  cases cost with
  | flat cost => simp [child?]
  | table entries =>
    rw [reach?, child?, CostTable.get?, CostTable.entry?, List.cons_append, List.findSome?_cons]
    cases entries.lookup key <;> simp

end Cost

namespace CostTable

/-- The number at the end of a walk, or zero if there is none. -/
def numberAt (table : CostTable) (levels : List (List String)) : Nat :=
  (Cost.amount ((Cost.table table).reach? levels)).toNat

/-- The levels of the form, of each parameter and of the result, if there is one. -/
def signatureLevels (signature : FuncType) : List (List (List String)) :=
  [["type"], ["form"], [signature.form.name]] ::
    (signature.params.map (fun param ↦ [["type"], ["params"], [param.name]]) ++
      signature.result.toList.map fun type ↦ [["type"], ["return_type"], [type.name]])

/-- The levels of a local. -/
def localLevels (type : ValueType) : List (List String) := [["code"], ["locals"], [type.name]]

/-- The levels of an instruction. -/
def instructionLevels (instruction : Instruction) : List (List String) :=
  [["code"], ["code"], [instruction.fullName, instruction.name]]

/-! ### Prices -/

/-- What a part of a signature charges is the price of its name. -/
theorem toNat_chargeBelow (table : CostTable) (branch key : String) :
    (Cost.chargeBelow table.signatures? branch key).toNat =
      table.numberAt [["type"], [branch], [key]] := by
  have hwalk : (Cost.table table).reach? [["type"], [branch], [key]] =
      (table.signatures?.bind fun c ↦ c.child? branch).bind fun c ↦ c.child? key := by
    simp only [Cost.reach?_cons_singleton, Cost.reach?_nil, Option.bind_fun_some,
      Option.bind_assoc]
    rfl
  rw [numberAt, hwalk, Cost.chargeBelow]
  cases table.signatures?.bind fun c ↦ c.child? branch <;> rfl

/-- The exact cost of a signature is the sum of the prices of its parts. -/
theorem exactSignatureCost_eq (table : CostTable) (signature : FuncType) :
    table.exactSignatureCost signature = ((signatureLevels signature).map table.numberAt).sum := by
  have hresult : (signature.result.elim 0 fun type ↦
      (Cost.chargeBelow table.signatures? "return_type" type.name).toNat) =
        ((signature.result.toList.map fun type ↦ [["type"], ["return_type"], [type.name]]).map
          table.numberAt).sum := by
    cases signature.result with
    | none => rfl
    | some type => exact (toNat_chargeBelow table _ _).trans (Nat.add_zero _).symm
  rw [exactSignatureCost, signatureLevels, List.map_cons, List.sum_cons, List.map_append,
    List.sum_append, ← hresult, List.map_map, Nat.add_assoc]
  simp only [toNat_chargeBelow]
  rfl

/-- The exact cost of locals is the sum of their prices, each as often as there are locals. -/
theorem exactLocalsCost_eq (table : CostTable) (locals : List LocalGroup) :
    table.exactLocalsCost locals =
      (locals.map fun group ↦ group.count.toNat * table.numberAt (localLevels group.type)).sum := by
  have hwalk (type : ValueType) : (Cost.table table).reach? (localLevels type) =
      table.locals?.bind fun c ↦ c.child? type.name := by
    rw [localLevels, locals?, Option.bind_assoc]
    simp only [Cost.reach?_cons_singleton, Cost.reach?_nil, Option.bind_fun_some]
    rfl
  simp only [exactLocalsCost, numberAt, hwalk]
  cases table.locals? with
  | none => simp [Cost.amount]
  | some costs => rfl

/-- What an instruction charges is the price of its names. -/
theorem toNat_instructionCost (table : CostTable) (instruction : Instruction) :
    (table.instructionCost instruction).toNat = table.numberAt (instructionLevels instruction) := by
  have hwalk : (Cost.table table).reach? (instructionLevels instruction) =
      table.instructions?.bind fun c ↦ c.reach? [[instruction.fullName, instruction.name]] := by
    rw [instructionLevels, instructions?, Option.bind_assoc]
    simp only [Cost.reach?_cons_singleton]
    rfl
  rw [numberAt, hwalk, instructionCost]
  cases table.instructions? with
  | none => rfl
  | some costs =>
    cases costs with
    | flat cost => rfl
    | table entries =>
      simp only [Option.bind_some, Cost.reach?, entry?, List.cons_append, List.nil_append,
        List.findSome?_cons]
      cases entries.lookup instruction.fullName <;> cases entries.lookup instruction.name <;>
        cases entries.lookup defaultKey <;> rfl

/-! ### Order and grouping -/

/-- Equal exact costs of signatures are charged alike. -/
theorem signatureCost_of_exact (table : CostTable) {signature signature' : FuncType}
    (h : table.exactSignatureCost signature = table.exactSignatureCost signature') :
    table.signatureCost signature = table.signatureCost signature' :=
  UInt64.toNat_inj.mp (by rw [toNat_signatureCost, toNat_signatureCost, h])

/-- Equal exact costs of locals are charged alike. -/
theorem localsCost_of_exact (table : CostTable) {locals locals' : List LocalGroup}
    (h : table.exactLocalsCost locals = table.exactLocalsCost locals') :
    table.localsCost locals = table.localsCost locals' :=
  UInt64.toNat_inj.mp (by rw [toNat_localsCost, toNat_localsCost, h])

theorem exactSignatureCost_perm (table : CostTable) (form : LanguageType)
    {params params' : List ValueType} (hparams : params.Perm params') (result : Option ValueType) :
    table.exactSignatureCost ⟨form, params, result⟩ =
      table.exactSignatureCost ⟨form, params', result⟩ := by
  rw [exactSignatureCost_eq, exactSignatureCost_eq]
  exact ((((hparams.map _).append_right _).cons _).map _).sum_eq

theorem exactLocalsCost_perm (table : CostTable) {locals locals' : List LocalGroup}
    (hlocals : locals.Perm locals') :
    table.exactLocalsCost locals = table.exactLocalsCost locals' := by
  rw [exactLocalsCost_eq, exactLocalsCost_eq]
  exact (hlocals.map _).sum_eq

/-- Locals of one type cost the same in one group as in two. -/
theorem exactLocalsCost_split (table : CostTable) (front behind : List LocalGroup)
    (type : ValueType) {first second whole : UInt32}
    (hcount : first.toNat + second.toNat = whole.toNat) :
    table.exactLocalsCost (front ++ ⟨whole, type⟩ :: behind) =
      table.exactLocalsCost (front ++ ⟨first, type⟩ :: ⟨second, type⟩ :: behind) := by
  simp only [exactLocalsCost_eq, List.map_append, List.map_cons, List.sum_append, List.sum_cons]
  rw [← hcount, Nat.add_mul, Nat.add_assoc (_ * _)]

/-- What a table charges for a signature is the sum of the prices of its parts, for locals that of
the prices of their types, each as often as there are locals, and for an instruction its price. A
sum past the largest cost is charged as the largest cost. Parameters and locals may change places,
and a group of locals may be split in two. -/
theorem charges_exact (table : CostTable) :
    (∀ signature, (table.signatureCost signature).toNat =
      min ((signatureLevels signature).map table.numberAt).sum maxCost) ∧
    (∀ locals, (table.localsCost locals).toNat =
      min (locals.map fun group ↦ group.count.toNat * table.numberAt (localLevels group.type)).sum
        maxCost) ∧
    (∀ instruction, (table.instructionCost instruction).toNat =
      min (table.numberAt (instructionLevels instruction)) maxCost) ∧
    (∀ form params params' result, params.Perm params' →
      table.signatureCost ⟨form, params, result⟩ = table.signatureCost ⟨form, params', result⟩) ∧
    (∀ locals locals', locals.Perm locals' →
      table.localsCost locals = table.localsCost locals') ∧
    ∀ front behind type (first second whole : UInt32),
      first.toNat + second.toNat = whole.toNat →
      table.localsCost (front ++ ⟨whole, type⟩ :: behind) =
        table.localsCost (front ++ ⟨first, type⟩ :: ⟨second, type⟩ :: behind) := by
  refine ⟨fun signature ↦ ?_, fun locals ↦ ?_, fun instruction ↦ ?_,
    fun form params params' result hparams ↦ ?_, fun locals locals' hlocals ↦ ?_,
    fun front behind type first second whole hcount ↦ ?_⟩
  · rw [toNat_signatureCost, exactSignatureCost_eq]
  · rw [toNat_localsCost, exactLocalsCost_eq]
  · rw [← toNat_instructionCost]
    exact toNat_eq_min _
  · exact signatureCost_of_exact table (exactSignatureCost_perm table form hparams result)
  · exact localsCost_of_exact table (exactLocalsCost_perm table hlocals)
  · exact localsCost_of_exact table (exactLocalsCost_split table front behind type hcount)

/-- A table with a default on each level, a number in the place of a table and the reverse. -/
def unevenTable : CostTable :=
  [("DEFAULT", .table [("DEFAULT", .flat 7), ("form", .table [("DEFAULT", .table [])])]),
    ("code", .table
      [("code", .table [("DEFAULT", .flat 1), ("add", .flat 2), ("i32.add", .table [])]),
        ("locals", .table [("DEFAULT", .flat 5), ("i64", .flat 0x8000000000000000)])])]

theorem charges_exact_uneven :
    [ValueType.i32, .i64, .f32].Perm [.f32, .i32, .i64] ∧
    [LocalGroup.mk 3 .i64, ⟨2, .i32⟩].Perm [⟨2, .i32⟩, ⟨3, .i64⟩] ∧
    (1 : UInt32).toNat + (2 : UInt32).toNat = (3 : UInt32).toNat ∧
    (unevenTable.signatureCost (.func [.f32, .i32, .i64] (some .f64))).toNat = 28 ∧
    unevenTable.localsCost [⟨2, .i32⟩, ⟨1, .i64⟩, ⟨2, .i64⟩] = unevenTable.localsCost
      [⟨3, .i64⟩, ⟨2, .i32⟩] ∧
    (unevenTable.localsCost [⟨3, .i64⟩, ⟨2, .i32⟩]).toNat = maxCost ∧
    (unevenTable.instructionCost ⟨"add", some .i32, none⟩).toNat = 0 ∧
    (unevenTable.instructionCost ⟨"add", some .i64, none⟩).toNat = 2 := by
  obtain ⟨hsignature, hlocals, hinstruction, hparams, hgroups, hsplit⟩ := charges_exact unevenTable
  have hmoved : [ValueType.i32, .i64, .f32].Perm [.f32, .i32, .i64] := by decide
  have hswapped : [LocalGroup.mk 3 .i64, ⟨2, .i32⟩].Perm [⟨2, .i32⟩, ⟨3, .i64⟩] := by decide
  have hcount : (1 : UInt32).toNat + (2 : UInt32).toNat = (3 : UInt32).toNat := rfl
  refine ⟨hmoved, hswapped, hcount, ?_, ?_, ?_, ?_, ?_⟩
  · rw [FuncType.func, ← hparams .func _ _ (some .f64) hmoved, hsignature]
    decide
  · rw [hgroups _ _ hswapped]
    exact (hsplit [⟨2, .i32⟩] [] .i64 1 2 3 hcount).symm
  · rw [hlocals]
    decide
  · rw [hinstruction]
    decide
  · rw [hinstruction]
    decide

end CostTable

end WasmMeter
