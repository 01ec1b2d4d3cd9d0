import Mathlib.Data.List.Nodup
import Mathlib.Data.List.TakeDrop
import Mathlib.Data.List.TakeWhile
import WasmMeter.Instruction

/-!
# Bytes and names of opcodes

The table of opcodes has each byte and each name once, so `Opcode.name?` and `Opcode.byte?` are
inverse to one another (`Opcode.byte?_eq_some_iff`). The instruction of an opcode has the name of
the opcode again (`Instruction.fullName_of_ofFullName?`), and the name of an instruction is taken
apart into this instruction unless the type is written inside the name
(`Instruction.ofFullName?_fullName`).
-/

set_option autoImplicit false

namespace WasmMeter

namespace Opcode

/-! ### The table has nothing twice -/

/-- The bytes of a name as the digits of one number. A number is compared at once, where the
comparison of two names has to read both of them again. -/
def nameKey (name : String) : Nat :=
  name.toByteArray.data.toList.foldl (fun key byte ↦ 256 * key + byte.toNat) 0

/-- No name is in the table twice. -/
theorem nodup_names : (table.map Prod.snd).Nodup := by
  have hkeys : ((table.map Prod.snd).map nameKey).Nodup := by decide +kernel
  exact hkeys.of_map nameKey

/-- The bytes of the table are in order. -/
theorem nodup_bytes : (table.map Prod.fst).Nodup := by
  have hascending : ((table.map Prod.fst).map UInt8.toNat).IsChain (· < ·) := by decide +kernel
  have hkeys : ((table.map Prod.fst).map UInt8.toNat).Nodup :=
    (List.isChain_iff_pairwise.mp hascending).imp Nat.ne_of_lt
  exact hkeys.of_map UInt8.toNat

/-! ### Lookup -/

theorem mem_table_of_name? {byte : UInt8} {name : String} (h : name? byte = some name) :
    (byte, name) ∈ table := by
  obtain ⟨before, behind, htable, -⟩ := List.lookup_eq_some_iff.mp h
  rw [htable]
  exact List.mem_append_right before List.mem_cons_self

theorem mem_table_of_byte? {byte : UInt8} {name : String} (h : byte? name = some byte) :
    (byte, name) ∈ table := by
  obtain ⟨entry, hfind, rfl⟩ := Option.map_eq_some_iff.mp h
  have hname := List.find?_some hfind
  rw [← beq_iff_eq.mp hname]
  exact List.mem_of_find?_eq_some hfind

/-- A byte is looked up in its only entry. -/
theorem name?_of_mem_table {byte : UInt8} {name : String} (h : (byte, name) ∈ table) :
    name? byte = some name := by
  have hsome : (name? byte).isSome := List.lookup_isSome_iff.mpr ⟨_, h, BEq.rfl⟩
  obtain ⟨other, hother⟩ := Option.isSome_iff_exists.mp hsome
  have hentry := List.inj_on_of_nodup_map nodup_bytes (mem_table_of_name? hother) h rfl
  rw [hother, (Prod.mk.inj hentry).2]

/-- A name is looked up in its only entry. -/
theorem byte?_of_mem_table {byte : UInt8} {name : String} (h : (byte, name) ∈ table) :
    byte? name = some byte := by
  have hsome : (byte? name).isSome := by
    rw [byte?, Option.isSome_map, List.find?_isSome]
    exact ⟨_, h, BEq.rfl⟩
  obtain ⟨other, hother⟩ := Option.isSome_iff_exists.mp hsome
  have hentry := List.inj_on_of_nodup_map nodup_names (mem_table_of_byte? hother) h rfl
  rw [hother, (Prod.mk.inj hentry).1]

/-- The two lookups are inverse to one another. -/
theorem byte?_eq_some_iff {byte : UInt8} {name : String} :
    byte? name = some byte ↔ name? byte = some name :=
  ⟨fun h ↦ name?_of_mem_table (mem_table_of_byte? h),
    fun h ↦ byte?_of_mem_table (mem_table_of_name? h)⟩

/-- The names without a byte are those that are not in the table. -/
theorem isNone_byte?_iff {name : String} : (byte? name).isNone ↔ name ∉ table.map Prod.snd := by
  rw [byte?, Option.isNone_map, Option.isNone_iff_eq_none, List.find?_eq_none, List.mem_map]
  simp only [beq_iff_eq, not_exists, not_and]

end Opcode

namespace ValueType

theorem name_of_ofName? {name : String} {type : ValueType} (h : ofName? name = some type) :
    type.name = name := by
  unfold ofName? at h
  split at h <;> cases h <;> rfl

end ValueType

namespace Instruction

/-- A name that is cut at its first dot is put together again with a dot. -/
theorem append_of_splitAtDot? {fullName type name : String}
    (h : splitAtDot? fullName = some (type, name)) : type ++ "." ++ name = fullName := by
  unfold splitAtDot? at h
  rw [List.span_eq_takeWhile_dropWhile] at h
  split at h
  · cases h
  · next before dot behind hsplit =>
    cases h
    obtain ⟨hbefore, hbehind⟩ := Prod.mk.inj hsplit
    have hdot : dot = '.' := by
      have hstop := List.head?_dropWhile_not (· ≠ '.') fullName.toList
      rw [hbehind] at hstop
      simpa using hstop
    have hwhole := List.takeWhile_append_dropWhile (p := (· ≠ '.')) (l := fullName.toList)
    rw [hbefore, hbehind, hdot] at hwhole
    rw [← String.toList_inj, ← hwhole]
    simp

/-- The instruction of a name has this name. -/
theorem fullName_of_ofFullName? {name : String} {base : Instruction}
    (h : ofFullName? name = some base) : base.fullName = name := by
  unfold ofFullName? at h
  split at h
  · next type rest hsplit =>
    obtain ⟨valueType, hvalueType, rfl⟩ := Option.map_eq_some_iff.mp h
    show valueType.name ++ "." ++ rest = name
    rw [ValueType.name_of_ofName? hvalueType]
    exact append_of_splitAtDot? hsplit
  · cases h
    rfl

/-- A name without a dot is not cut. -/
theorem splitAtDot?_eq_none_iff {fullName : String} :
    splitAtDot? fullName = none ↔ '.' ∉ fullName.toList := by
  have hnone : '.' ∉ fullName.toList ↔ fullName.toList.dropWhile (· ≠ '.') = [] := by
    rw [List.dropWhile_eq_nil_iff]
    simp only [decide_eq_true_eq]
    exact ⟨fun h c hc hdot ↦ h (hdot ▸ hc), fun h hdot ↦ h '.' hdot rfl⟩
  rw [hnone, splitAtDot?, List.span_eq_takeWhile_dropWhile]
  cases fullName.toList.dropWhile (· ≠ '.') <;> simp

/-- A name is cut at the first dot in it. -/
theorem splitAtDot?_append {type : String} (htype : '.' ∉ type.toList) (name : String) :
    splitAtDot? (type ++ "." ++ name) = some (type, name) := by
  have hbefore : ∀ c ∈ type.toList, decide (c ≠ '.') = true := fun c hc ↦
    decide_eq_true fun hdot ↦ htype (hdot ▸ hc)
  have htext : (type ++ "." ++ name).toList = type.toList ++ '.' :: name.toList := by simp
  rw [splitAtDot?, htext, List.span_eq_takeWhile_dropWhile,
    List.takeWhile_append_of_pos hbefore, List.dropWhile_append_of_pos hbefore]
  simp

/-- A name is taken apart again into the type and the name of which it was put together, unless it
is a name without a type that looks like one with a type. -/
theorem ofFullName?_fullName {instruction : Instruction}
    (h : instruction.type = none → '.' ∉ instruction.name.toList) :
    ofFullName? instruction.fullName = some { instruction with immediate := none } := by
  obtain ⟨name, _ | type, immediate⟩ := instruction
  · rw [fullName, ofFullName?, splitAtDot?_eq_none_iff.mpr (h rfl)]
  · have htype : '.' ∉ type.name.toList := by cases type <;> decide
    rw [fullName, ofFullName?, splitAtDot?_append htype]
    simp [typed]

/-- What is taken apart has no immediate yet. -/
theorem immediate_of_ofFullName? {name : String} {base : Instruction}
    (h : ofFullName? name = some base) : base.immediate = none := by
  unfold ofFullName? at h
  split at h
  · obtain ⟨type, -, rfl⟩ := Option.map_eq_some_iff.mp h
    rfl
  · cases h
    rfl

/-- What is taken apart has no dot in its name if it has no type. -/
theorem not_mem_name_of_ofFullName? {name : String} {base : Instruction}
    (h : ofFullName? name = some base) (htype : base.type = none) : '.' ∉ base.name.toList := by
  unfold ofFullName? at h
  cases hsplit : splitAtDot? name with
  | none =>
    rw [hsplit] at h
    cases h
    exact splitAtDot?_eq_none_iff.mp hsplit
  | some parts =>
    rw [hsplit] at h
    obtain ⟨type, -, rfl⟩ := Option.map_eq_some_iff.mp h
    cases htype

theorem ofFullName?_eq_some_iff {name : String} {base : Instruction} :
    ofFullName? name = some base ↔
      base.fullName = name ∧ (base.type = none → '.' ∉ base.name.toList) ∧
        base.immediate = none := by
  constructor
  · intro h
    exact ⟨fullName_of_ofFullName? h, not_mem_name_of_ofFullName? h, immediate_of_ofFullName? h⟩
  · rintro ⟨rfl, hseparated, himmediate⟩
    rw [ofFullName?_fullName hseparated, ← himmediate]

end Instruction

end WasmMeter
