import Mathlib.Tactic.SplitIfs
import WasmMeter.Proofs.Json.Forms

/-!
# Cost tables and options as JSON

A cost table is a list of names and costs, and every table that is built has its names in order,
each of them once, on all levels (`CostTable.Ordered`): the table of a list of entries
(`CostTable.ordered_ofList`), the built-in one (`CostTable.ordered_builtin`) and what is read from
JSON (`CostTable.ordered_of_ofJson?`). From the form of such a table the same table is built again
(`CostTable.Ordered.ofJson?_toJson`), and so the options of metering are read back
(`MeterOptions.ofJson?_toJson`).

Tables may be nested without end, so their forms are `Json.Legible`, but of no fixed depth.
-/

set_option autoImplicit false

namespace WasmMeter

open JsonForm

/-! ### Names in order -/

namespace CostTable

/-- The names of a table are in order, and none repeats. -/
def Sorted (table : CostTable) : Prop := table.Pairwise fun a b ↦ a.1 < b.1

theorem lt_of_not_lt_of_ne {a b : String} (h : ¬ a < b) (hne : a ≠ b) : b < a :=
  String.not_le.mp fun hle ↦ hne (String.le_antisymm hle (String.not_lt.mp h))

/-- A name that comes after all others is put behind them. -/
theorem insert_eq_append {key : String} {table : CostTable} (h : ∀ entry ∈ table, entry.1 < key)
    (cost : Cost) : table.insert key cost = table ++ [(key, cost)] := by
  induction table with
  | nil => rfl
  | cons entry later ih =>
    obtain ⟨k, c⟩ := entry
    obtain ⟨hk, hlater⟩ := List.forall_mem_cons.mp h
    have hne : key ≠ k := by
      rintro rfl
      exact String.lt_irrefl _ hk
    rw [insert, if_neg (String.lt_asymm hk), if_neg hne, ih hlater, List.cons_append]

theorem mem_insert {key : String} {cost : Cost} {table : CostTable} {entry : String × Cost}
    (h : entry ∈ table.insert key cost) : entry = (key, cost) ∨ entry ∈ table := by
  induction table with
  | nil => exact .inl (List.mem_singleton.mp h)
  | cons first later ih =>
    obtain ⟨k, c⟩ := first
    rw [insert] at h
    split_ifs at h
    · exact List.mem_cons.mp h
    · exact (List.mem_cons.mp h).imp_right (List.mem_cons_of_mem _)
    · rcases List.mem_cons.mp h with rfl | h
      · exact .inr List.mem_cons_self
      · exact (ih h).imp_right (List.mem_cons_of_mem _)

theorem sorted_insert {table : CostTable} (h : table.Sorted) (key : String) (cost : Cost) :
    (table.insert key cost).Sorted := by
  induction table with
  | nil => exact List.pairwise_singleton _ _
  | cons first later ih =>
    obtain ⟨k, c⟩ := first
    obtain ⟨hfirst, hlater⟩ := List.pairwise_cons.mp h
    rw [insert]
    split_ifs with hless heq
    · refine List.pairwise_cons.mpr ⟨List.forall_mem_cons.mpr ⟨hless, fun entry hentry ↦ ?_⟩, h⟩
      exact String.lt_trans hless (hfirst entry hentry)
    · subst heq
      exact List.pairwise_cons.mpr ⟨hfirst, hlater⟩
    · refine List.pairwise_cons.mpr ⟨fun entry hentry ↦ ?_, ih hlater⟩
      rcases mem_insert hentry with rfl | hentry
      · exact lt_of_not_lt_of_ne hless heq
      · exact hfirst entry hentry

/-- A list with its names in order is the table of its entries. -/
theorem ofList_eq_self {entries : List (String × Cost)} (h : Sorted entries) :
    ofList entries = entries := by
  have hfold (table rest : CostTable) (hsorted : Sorted (table ++ rest)) :
      rest.foldl (fun table entry ↦ table.insert entry.1 entry.2) table = table ++ rest := by
    induction rest generalizing table with
    | nil => exact (List.append_nil table).symm
    | cons entry later ih =>
      have hbefore : ∀ other ∈ table, other.1 < entry.1 := fun other hother ↦
        (List.pairwise_append.mp hsorted).2.2 other hother entry List.mem_cons_self
      rw [List.append_cons] at hsorted ⊢
      rw [List.foldl_cons, insert_eq_append hbefore]
      exact ih _ hsorted
  exact hfold empty entries h

end CostTable

/-- All tables of a cost have their names in order. -/
inductive Cost.Ordered : Cost → Prop
  | flat (cost : UInt64) : Ordered (.flat cost)
  | table {entries : List (String × Cost)} (hsorted : CostTable.Sorted entries)
    (h : ∀ entry ∈ entries, Ordered entry.2) : Ordered (.table entries)

namespace CostTable

/-- A table has its names in order, and so have the tables in it. -/
structure Ordered (table : CostTable) : Prop where
  sorted : table.Sorted
  entries : ∀ entry ∈ table, entry.2.Ordered

theorem Ordered.cost {table : CostTable} (h : table.Ordered) : (Cost.table table).Ordered :=
  .table h.sorted h.entries

theorem Ordered.insert {table : CostTable} (h : table.Ordered) (key : String) {cost : Cost}
    (hcost : cost.Ordered) : (table.insert key cost).Ordered where
  sorted := sorted_insert h.sorted key cost
  entries entry hentry := by
    rcases mem_insert hentry with rfl | hentry
    · exact hcost
    · exact h.entries entry hentry

/-- The table of a list is in order whatever the order of the list is. -/
theorem ordered_ofList {entries : List (String × Cost)} (h : ∀ entry ∈ entries, entry.2.Ordered) :
    (ofList entries).Ordered := by
  have hfold (table : CostTable) (htable : table.Ordered) :
      (entries.foldl (fun table entry ↦ table.insert entry.1 entry.2) table).Ordered := by
    induction entries generalizing table with
    | nil => exact htable
    | cons entry later ih =>
      obtain ⟨hentry, hlater⟩ := List.forall_mem_cons.mp h
      exact ih hlater (table.insert entry.1 entry.2) (htable.insert entry.1 hentry)
  exact hfold empty ⟨List.Pairwise.nil, fun _ hentry ↦ absurd hentry List.not_mem_nil⟩

end CostTable

/-! ### What is read is in order -/

namespace Cost

mutual

theorem ordered_of_read? : ∀ {j : Json} {cost : Cost}, read? j = some cost → cost.Ordered
  | .integer value, cost, h => by
    obtain ⟨n, -, rfl⟩ := Option.map_eq_some_iff.mp h
    exact .flat n
  | .object members, cost, h => by
    obtain ⟨entries, hentries, rfl⟩ := Option.map_eq_some_iff.mp h
    exact (CostTable.ordered_ofList (ordered_of_readEntries? hentries)).cost
  | .null, _, h | .bool _, _, h | .real _, _, h | .string _, _, h | .array _, _, h |
    .unusable, _, h => by cases h

theorem ordered_of_readEntries? : ∀ {members : List (String × Json)}
    {entries : List (String × Cost)}, readEntries? members = some entries →
      ∀ entry ∈ entries, entry.2.Ordered
  | [], _, h => by
    obtain rfl := Option.some.inj h
    exact fun _ hentry ↦ absurd hentry List.not_mem_nil
  | m :: later, _, h => by
    obtain ⟨entry, hentry, h⟩ := Option.bind_eq_some_iff.mp h
    obtain ⟨rest, hrest, h⟩ := Option.bind_eq_some_iff.mp h
    obtain rfl := Option.some.inj h
    have hfirst : entry.2.Ordered := ordered_of_readEntry? hentry
    exact List.forall_mem_cons.mpr ⟨hfirst, ordered_of_readEntries? hrest⟩

theorem ordered_of_readEntry? : ∀ {m : String × Json} {entry : String × Cost},
    readEntry? m = some entry → entry.2.Ordered
  | (key, j), _, h => by
    obtain ⟨cost, hcost, rfl⟩ := Option.map_eq_some_iff.mp h
    exact ordered_of_read? hcost

end

/-! ### What is written is read -/

theorem readEntries?_writeEntries {entries : List (String × Cost)}
    (h : ∀ entry ∈ entries, read? entry.2.write = some entry.2) :
    readEntries? (writeEntries entries) = some entries := by
  induction entries with
  | nil => rfl
  | cons entry later ih =>
    obtain ⟨key, cost⟩ := entry
    obtain ⟨hcost, hlater⟩ := List.forall_mem_cons.mp h
    have hentry : readEntry? (key, cost.write) = some (key, cost) := by
      unfold readEntry?
      rw [hcost, Option.map_some]
    rw [writeEntries, writeEntry, readEntries?, hentry, ih hlater]
    rfl

/-- A cost with its names in order is read back. -/
theorem read?_write {cost : Cost} (h : cost.Ordered) : read? cost.write = some cost := by
  induction h with
  | flat cost => exact congrArg (flat <$> ·) (ofJson?_toJson cost)
  | @table entries hsorted _ ih =>
    rw [write, read?, readEntries?_writeEntries ih, Option.map_some,
      CostTable.ofList_eq_self hsorted]

end Cost

namespace CostTable

theorem Ordered.ofJson?_toJson {table : CostTable} (h : table.Ordered) :
    (ofJson? (toJson table) : Option CostTable) = some table := by
  have hentries : Cost.readEntries? (Cost.writeEntries table) = some table :=
    Cost.readEntries?_writeEntries fun entry hentry ↦ Cost.read?_write (h.entries entry hentry)
  calc
    _ = (Cost.readEntries? (Cost.writeEntries table)).map ofList := rfl
    _ = some table := by rw [hentries, Option.map_some, ofList_eq_self h.sorted]

/-- What is read as a cost table has its names in order. -/
theorem ordered_of_ofJson? {j : Json} {table : CostTable}
    (h : (ofJson? j : Option CostTable) = some table) : table.Ordered := by
  cases j with
  | object members =>
    obtain ⟨entries, hentries, rfl⟩ := Option.map_eq_some_iff.mp h
    exact ordered_ofList (Cost.ordered_of_readEntries? hentries)
  | _ => cases h

end CostTable

/-! ### Options -/

namespace MeterOptions

variable {options : MeterOptions}

theorem ofJson?_toJson (h : options.costTable.Ordered) :
    (ofJson? (toJson options) : Option MeterOptions) = some options := by
  have hgiven : record? ["cost_table", "import_module", "import_field", "meter_type"]
      (toJson options) = some [("cost_table", toJson options.costTable),
        ("import_module", toJson options.importModule),
        ("import_field", toJson options.importField), ("meter_type", toJson options.meterType)] :=
    record?_object (by simp) (by simp)
  unfold instJsonFormMeterOptions at *
  dsimp only at *
  rw [hgiven, Option.bind_eq_bind, Option.bind_some,
    defaulted?_eq (by rfl) h.ofJson?_toJson,
    defaulted?_eq (by rfl) (LawfulJsonForm.ofJson?_toJson options.importModule),
    defaulted?_eq (by rfl) (LawfulJsonForm.ofJson?_toJson options.importField),
    defaulted?_eq (by rfl) (LawfulJsonForm.ofJson?_toJson options.meterType)]
  rfl

end MeterOptions

end WasmMeter
