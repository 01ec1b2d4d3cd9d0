import WasmMeter.Json.Module
import WasmMeter.Proofs.Json.Spelling

/-!
# JSON forms lose nothing

A JSON form is lawful when every value is read back from the form that is written for it, and when
what is written is plain: it has no `null` and no empty object, is no deeper than a fixed number of
levels, and can be printed (`LawfulJsonForm`). That it is plain matters where a reader is generous:
an optional member may be `null` for a missing value, and inside a section a lone name may have an
empty object for `null`. Neither can be mistaken for what a writer puts there.

Records are read field by field, in whatever order and with unknown members (`record?_object`,
`record?_cons_of_notMem`). The kind of a section is one more member, which none of the fields of a
section has the name of.
-/

set_option autoImplicit false

namespace WasmMeter

open JsonForm

/-! ### Plain values -/

namespace Json

/-- A value without `null` and without empty objects, which can be printed, and in which at most
`levels` arrays and objects are nested. -/
inductive Plain : (levels : Nat) → Json → Prop
  | bool (levels : Nat) (value : Bool) : Plain levels (.bool value)
  | integer (levels : Nat) {value : Int} (h : value.natAbs < UInt64.size) :
    Plain levels (.integer value)
  | string (levels : Nat) (value : String) : Plain levels (.string value)
  | array {levels : Nat} {elements : List Json} (h : ∀ j ∈ elements, Plain levels j) :
    Plain (levels + 1) (.array elements)
  | object {levels : Nat} {members : List (String × Json)} (hne : members ≠ [])
    (h : ∀ m ∈ members, Plain levels m.2) : Plain (levels + 1) (.object members)

theorem areUsable_of_forall {elements : List Json} (h : ∀ j ∈ elements, j.isUsable = true) :
    areUsable elements = true := by
  induction elements with
  | nil => rfl
  | cons j later ih =>
    obtain ⟨hj, hlater⟩ := List.forall_mem_cons.mp h
    rw [areUsable, hj, ih hlater, Bool.and_self]

theorem membersAreUsable_of_forall {members : List (String × Json)}
    (h : ∀ m ∈ members, m.2.isUsable = true) : membersAreUsable members = true := by
  induction members with
  | nil => rfl
  | cons m later ih =>
    obtain ⟨hm, hlater⟩ := List.forall_mem_cons.mp h
    rw [membersAreUsable, memberIsUsable, hm, ih hlater, Bool.and_self]

theorem nullNamesOfElements_eq_self {elements : List Json}
    (h : ∀ j ∈ elements, j.nullNames = j) : nullNamesOfElements elements = elements := by
  induction elements with
  | nil => rfl
  | cons j later ih =>
    obtain ⟨hj, hlater⟩ := List.forall_mem_cons.mp h
    rw [nullNamesOfElements, hj, ih hlater]

theorem nullNamesOfMembers_eq_self {members : List (String × Json)}
    (h : ∀ m ∈ members, m.2.nullNames = m.2) : nullNamesOfMembers members = members := by
  induction members with
  | nil => rfl
  | cons m later ih =>
    obtain ⟨hm, hlater⟩ := List.forall_mem_cons.mp h
    rw [nullNamesOfMembers, nullNamesOfMember, hm, ih hlater]

namespace Plain

variable {levels : Nat} {j : Json}

theorem mono (h : Plain levels j) {more : Nat} (hle : levels ≤ more) : Plain more j := by
  induction h generalizing more with
  | bool _ value => exact .bool more value
  | integer _ hvalue => exact .integer more hvalue
  | string _ value => exact .string more value
  | array _ ih =>
    obtain ⟨n, rfl⟩ := Nat.exists_eq_add_of_le' (Nat.le_trans (Nat.succ_pos _) hle)
    exact .array fun j hj ↦ ih j hj (Nat.le_of_succ_le_succ hle)
  | object hne _ ih =>
    obtain ⟨n, rfl⟩ := Nat.exists_eq_add_of_le' (Nat.le_trans (Nat.succ_pos _) hle)
    exact .object hne fun m hm ↦ ih m hm (Nat.le_of_succ_le_succ hle)

theorem ne_null (h : Plain levels j) : j ≠ .null := by
  rintro rfl
  cases h

theorem ne_emptyObject (h : Plain levels j) : j ≠ .object [] := by
  rintro rfl
  cases h with
  | object hne => exact hne rfl

theorem isUsable (h : Plain levels j) : j.isUsable = true := by
  induction h with
  | bool | integer | string => rfl
  | array _ ih => exact areUsable_of_forall ih
  | object _ _ ih => exact membersAreUsable_of_forall ih

/-- A section looks at plain values as they are. -/
theorem nullNames (h : Plain levels j) : j.nullNames = j := by
  induction h with
  | bool | integer | string => rfl
  | array _ ih => rw [Json.nullNames, nullNamesOfElements_eq_self ih]
  | @object _ members _ hmembers ih =>
    have hlone : ∀ name, members ≠ [(name, .object [])] := by
      rintro name rfl
      exact (hmembers (name, .object []) List.mem_cons_self).ne_emptyObject rfl
    rw [Json.nullNames, nullNamesOfMembers_eq_self ih]
    exact hlone

end Plain

end Json

/-! ### Lawful forms -/

/-- Every value is read back from its form, and the forms are plain. -/
class LawfulJsonForm (α : Type) [JsonForm α] (levels : outParam Nat) : Prop where
  ofJson?_toJson (a : α) : ofJson? (toJson a) = some a
  plain_toJson (a : α) : (toJson a).Plain levels

export LawfulJsonForm (ofJson?_toJson plain_toJson)

/-! ### Numbers, texts and lists -/

namespace JsonForm

theorem natural?_natCast {size n : Nat} (hn : n < size) :
    natural? size (.integer (n : Int)) = some n :=
  if_pos hn

theorem integer?_integer {low high i : Int} (hlow : low ≤ i) (hhigh : i ≤ high) :
    integer? low high (.integer i) = some i :=
  if_pos ⟨hlow, hhigh⟩

end JsonForm

instance : LawfulJsonForm UInt8 0 where
  ofJson?_toJson n := by
    unfold instUInt8
    dsimp only
    rw [natural?_natCast n.toNat_lt_size, Option.map_some, UInt8.ofNat_toNat]
  plain_toJson n := .integer 0 (Nat.lt_trans n.toNat_lt (by decide))

instance : LawfulJsonForm UInt32 0 where
  ofJson?_toJson n := by
    unfold instUInt32
    dsimp only
    rw [natural?_natCast n.toNat_lt_size, Option.map_some, UInt32.ofNat_toNat]
  plain_toJson n := .integer 0 (Nat.lt_trans n.toNat_lt (by decide))

instance : LawfulJsonForm UInt64 0 where
  ofJson?_toJson n := by
    unfold instUInt64
    dsimp only
    rw [natural?_natCast n.toNat_lt_size, Option.map_some, UInt64.ofNat_toNat]
  plain_toJson n := .integer 0 n.toNat_lt

instance : LawfulJsonForm Int32 0 where
  ofJson?_toJson i := by
    unfold instInt32
    dsimp only
    rw [integer?_integer i.minValue_le_toInt i.toInt_le, Option.map_some, Int32.ofInt_toInt]
  plain_toJson i := by
    have hlow := i.le_toInt
    have hhigh := i.toInt_lt
    exact .integer 0 (by unfold UInt64.size; omega)

instance : LawfulJsonForm Int64 0 where
  ofJson?_toJson i := by
    unfold instInt64
    dsimp only
    rw [integer?_integer i.minValue_le_toInt i.toInt_le, Option.map_some, Int64.ofInt_toInt]
  plain_toJson i := by
    have hlow := i.le_toInt
    have hhigh := i.toInt_lt
    exact .integer 0 (by unfold UInt64.size; omega)

instance : LawfulJsonForm Bool 0 where
  ofJson?_toJson _ := rfl
  plain_toJson b := .bool 0 b

instance : LawfulJsonForm String 0 where
  ofJson?_toJson _ := rfl
  plain_toJson s := .string 0 s

instance {α : Type} {levels : Nat} [JsonForm α] [LawfulJsonForm α levels] :
    LawfulJsonForm (List α) (levels + 1) where
  ofJson?_toJson as := by
    have hmapM : (as.map toJson).mapM ofJson? = some as := by
      induction as with
      | nil => rfl
      | cons a later ih => rw [List.map_cons, List.mapM_cons, ofJson?_toJson, ih]; rfl
    exact hmapM
  plain_toJson as := by
    refine .array fun j hj ↦ ?_
    obtain ⟨a, -, rfl⟩ := List.mem_map.mp hj
    exact plain_toJson a

instance {n : Nat} : LawfulJsonForm (Vector UInt8 n) 1 where
  ofJson?_toJson word := by
    have hread : (ofJson? (toJson word.toList) : Option (List UInt8)) = some word.toList :=
      ofJson?_toJson word.toList
    unfold instVectorUInt8
    dsimp only
    rw [hread, Option.bind_eq_bind, Option.bind_some, Bytes.toWord?_eq_some_iff]
  plain_toJson word := plain_toJson word.toList

instance : LawfulJsonForm ValueType 0 where
  ofJson?_toJson type := type.ofName?_name
  plain_toJson type := .string 0 type.name

instance : LawfulJsonForm LanguageType 0 where
  ofJson?_toJson type := type.ofName?_name
  plain_toJson type := .string 0 type.name

instance : LawfulJsonForm ExternalKind 0 where
  ofJson?_toJson kind := kind.ofName?_name
  plain_toJson kind := .string 0 kind.name

/-! ### Records -/

namespace JsonForm

/-- All members of a record are given if they are its fields and none repeats. -/
theorem record?_object {fields : List String} {members : List (String × Json)}
    (hfields : ∀ m ∈ members, m.1 ∈ fields) (hnodup : (members.map (·.1)).Nodup) :
    record? fields (.object members) = some members := by
  have hfilter : (members.filter fun m ↦ fields.contains m.1) = members :=
    List.filter_eq_self.mpr fun m hm ↦ List.contains_iff_mem.mpr (hfields m hm)
  simp only [record?, hfilter, hnodup, if_true]

/-- A member that is not a field is not looked at. -/
theorem record?_cons_of_notMem {fields : List String} {name : String} (hname : name ∉ fields)
    (j : Json) (members : List (String × Json)) :
    record? fields (.object ((name, j) :: members)) = record? fields (.object members) := by
  simp [record?, hname]

section
variable {α : Type} {levels : Nat} [JsonForm α] [LawfulJsonForm α levels]
  {given : List (String × Json)} {field : String}
include levels

theorem required?_eq {a : α} (h : given.lookup field = some (toJson a)) :
    required? given field = some a := by
  rw [required?, h, Option.bind_some, ofJson?_toJson]

theorem optional?_eq {value : Option α} (h : given.lookup field = value.map toJson) :
    optional? given field = some value := by
  cases value with
  | none => simp only [optional?, h, Option.map_none]
  | some a =>
    have hnull : toJson a ≠ .null := (plain_toJson a).ne_null
    simp only [optional?, h, Option.map_some, ofJson?_toJson]

end

/-- A value that is given is read, whatever stands for a missing one. -/
theorem defaulted?_eq {α : Type} [JsonForm α] {default a : α} {given : List (String × Json)}
    {field : String} {j : Json} (h : given.lookup field = some j) (hj : ofJson? j = some a) :
    defaulted? default given field = some a := by
  simp only [defaulted?, h, hj]

/-- A member of another name is not the one that is looked up. -/
theorem lookup_cons_of_ne {name other : String} (hne : name ≠ other) (j : Json)
    (members : List (String × Json)) :
    ((other, j) :: members).lookup name = members.lookup name := by
  rw [List.lookup_cons, beq_eq_false_iff_ne.mpr hne]

section
variable {α β γ δ : Type} {l₁ l₂ l₃ : Nat} [JsonForm α] [JsonForm β] [JsonForm γ]
  [LawfulJsonForm α l₁] [LawfulJsonForm β l₂] [LawfulJsonForm γ l₃] {f g h : String}
include l₁ l₂

/-- A record of two fields. -/
theorem read_two (hfg : f ≠ g) (mk : α → β → δ) (a : α) (b : β) :
    (do
      let given ← record? [f, g] (.object [(f, toJson a), (g, toJson b)])
      pure (mk (← required? given f) (← required? given g))) = some (mk a b) := by
  have hf : [(f, toJson a), (g, toJson b)].lookup f = some (toJson a) := List.lookup_cons_self
  have hg : [(f, toJson a), (g, toJson b)].lookup g = some (toJson b) := by
    rw [lookup_cons_of_ne hfg.symm, List.lookup_cons_self]
  rw [record?_object (by simp) (by simp [hfg]), Option.bind_eq_bind, Option.bind_some,
    required?_eq hf, required?_eq hg]
  rfl

include l₃

/-- A record of three fields. -/
theorem read_three (hfg : f ≠ g) (hfh : f ≠ h) (hgh : g ≠ h) (mk : α → β → γ → δ) (a : α) (b : β)
    (c : γ) :
    (do
      let given ← record? [f, g, h] (.object [(f, toJson a), (g, toJson b), (h, toJson c)])
      pure (mk (← required? given f) (← required? given g) (← required? given h))) =
      some (mk a b c) := by
  have hf : [(f, toJson a), (g, toJson b), (h, toJson c)].lookup f = some (toJson a) :=
    List.lookup_cons_self
  have hg : [(f, toJson a), (g, toJson b), (h, toJson c)].lookup g = some (toJson b) := by
    rw [lookup_cons_of_ne hfg.symm, List.lookup_cons_self]
  have hh : [(f, toJson a), (g, toJson b), (h, toJson c)].lookup h = some (toJson c) := by
    rw [lookup_cons_of_ne hfh.symm, lookup_cons_of_ne hgh.symm, List.lookup_cons_self]
  rw [record?_object (by simp) (by simp [hfg, hfh, hgh]), Option.bind_eq_bind, Option.bind_some,
    required?_eq hf, required?_eq hg, required?_eq hh]
  rfl

end

theorem forall_mem_optionalMember {α : Type} {levels : Nat} [JsonForm α] [LawfulJsonForm α levels]
    (field : String) (value : Option α) : ∀ m ∈ optionalMember field value, m.2.Plain levels := by
  cases value with
  | none => exact fun m hm ↦ absurd hm List.not_mem_nil
  | some a => exact List.forall_mem_singleton.mpr (plain_toJson a)

theorem plain_two {a b : Json} {l₁ l₂ : Nat} (ha : a.Plain l₁) (hb : b.Plain l₂) (f g : String) :
    (Json.object [(f, a), (g, b)]).Plain (max l₁ l₂ + 1) := by
  refine .object (List.cons_ne_nil _ _) (List.forall_mem_cons.mpr ⟨?_, ?_⟩)
  · exact ha.mono (Nat.le_max_left _ _)
  · exact List.forall_mem_singleton.mpr (hb.mono (Nat.le_max_right _ _))

theorem plain_three {a b c : Json} {l₁ l₂ l₃ : Nat} (ha : a.Plain l₁) (hb : b.Plain l₂)
    (hc : c.Plain l₃) (f g h : String) :
    (Json.object [(f, a), (g, b), (h, c)]).Plain (max l₁ (max l₂ l₃) + 1) := by
  refine .object (List.cons_ne_nil _ _) (List.forall_mem_cons.mpr ⟨?_, ?_⟩)
  · exact ha.mono (Nat.le_max_left _ _)
  · refine List.forall_mem_cons.mpr ⟨hb.mono (by omega), ?_⟩
    exact List.forall_mem_singleton.mpr (hc.mono (by omega))

/-- A value of one of several kinds. -/
theorem plain_variant {j : Json} {levels : Nat} (hj : j.Plain levels) (kind : String) :
    (variant kind j).Plain (levels + 1) :=
  .object (List.cons_ne_nil _ _) (List.forall_mem_singleton.mpr hj)

end JsonForm

/-! ### Types -/

instance : LawfulJsonForm Limits 1 where
  ofJson?_toJson limits := by
    obtain ⟨initial, maximum⟩ := limits
    -- Whether the optional member is there or not, all names are names of fields and none repeats.
    have hgiven : record? ["initial", "maximum"] (toJson (Limits.mk initial maximum)) =
        some (("initial", toJson initial) :: optionalMember "maximum" maximum) := by
      cases maximum <;> exact record?_object (by simp [optionalMember]) (by simp [optionalMember])
    have hmaximum : optional? (("initial", toJson initial) :: optionalMember "maximum" maximum)
        "maximum" = some maximum := optional?_eq (by cases maximum <;> rfl)
    unfold instJsonFormLimits at *
    dsimp only at *
    rw [hgiven, Option.bind_eq_bind, Option.bind_some, required?_eq (by rfl), hmaximum]
    rfl
  plain_toJson limits := .object (List.cons_ne_nil _ _) (List.forall_mem_cons.mpr
    ⟨plain_toJson limits.initial, forall_mem_optionalMember "maximum" limits.maximum⟩)

instance : LawfulJsonForm TableType 2 where
  ofJson?_toJson type := read_two (by decide) TableType.mk type.elementType type.limits
  plain_toJson type := plain_two (plain_toJson type.elementType) (plain_toJson type.limits) _ _

instance : LawfulJsonForm GlobalType 1 where
  ofJson?_toJson type := read_two (by decide) GlobalType.mk type.contentType type.isMutable
  plain_toJson type := plain_two (plain_toJson type.contentType) (plain_toJson type.isMutable) _ _

instance : LawfulJsonForm FuncType 2 where
  ofJson?_toJson type := by
    obtain ⟨form, params, result⟩ := type
    have hgiven : record? ["form", "params", "return_type"]
        (toJson (FuncType.mk form params result)) =
        some (("form", toJson form) :: ("params", toJson params) ::
          optionalMember "return_type" result) := by
      cases result <;> exact record?_object (by simp [optionalMember]) (by simp [optionalMember])
    have hresult : optional? (("form", toJson form) :: ("params", toJson params) ::
        optionalMember "return_type" result) "return_type" = some result :=
      optional?_eq (by cases result <;> rfl)
    unfold instJsonFormFuncType at *
    dsimp only at *
    rw [hgiven, Option.bind_eq_bind, Option.bind_some, required?_eq (by rfl), required?_eq (by rfl),
      hresult]
    rfl
  plain_toJson type := .object (List.cons_ne_nil _ _) (by
    simp only [List.forall_mem_cons]
    exact ⟨(plain_toJson type.form).mono (by decide), plain_toJson type.params, fun m hm ↦
      (forall_mem_optionalMember "return_type" type.result m hm).mono (by decide)⟩)

/-! ### Instructions -/

instance : LawfulJsonForm BranchTable 2 where
  ofJson?_toJson table := read_two (by decide) BranchTable.mk table.targets table.defaultTarget
  plain_toJson table :=
    plain_two (plain_toJson table.targets) (plain_toJson table.defaultTarget) _ _

instance : LawfulJsonForm IndirectCall 1 where
  ofJson?_toJson call := read_two (by decide) IndirectCall.mk call.typeIndex call.reserved
  plain_toJson call := plain_two (plain_toJson call.typeIndex) (plain_toJson call.reserved) _ _

instance : LawfulJsonForm MemoryAccess 1 where
  ofJson?_toJson access := read_two (by decide) MemoryAccess.mk access.flags access.offset
  plain_toJson access := plain_two (plain_toJson access.flags) (plain_toJson access.offset) _ _

instance : LawfulJsonForm Immediate 3 where
  -- The one name decides on the reader, so each case comes down to the form of what the kind holds.
  ofJson?_toJson
    | .varUint1 value => congrArg (Immediate.varUint1 <$> ·) (ofJson?_toJson value)
    | .varUint32 value => congrArg (Immediate.varUint32 <$> ·) (ofJson?_toJson value)
    | .varInt32 value => congrArg (Immediate.varInt32 <$> ·) (ofJson?_toJson value)
    | .varInt64 value => congrArg (Immediate.varInt64 <$> ·) (ofJson?_toJson value)
    | .uint32 bytes => congrArg (Immediate.uint32 <$> ·) (ofJson?_toJson bytes)
    | .uint64 bytes => congrArg (Immediate.uint64 <$> ·) (ofJson?_toJson bytes)
    | .blockType type => congrArg (Immediate.blockType <$> ·) (ofJson?_toJson type)
    | .branchTable table => congrArg (Immediate.branchTable <$> ·) (ofJson?_toJson table)
    | .callIndirect call => congrArg (Immediate.callIndirect <$> ·) (ofJson?_toJson call)
    | .memory access => congrArg (Immediate.memory <$> ·) (ofJson?_toJson access)
  plain_toJson immediate := by
    cases immediate <;> exact (plain_variant (plain_toJson _) _).mono (by decide)

instance : LawfulJsonForm Instruction 4 where
  ofJson?_toJson instruction := by
    obtain ⟨name, type, immediate⟩ := instruction
    have hgiven : record? ["name", "return_type", "immediate"]
        (toJson (Instruction.mk name type immediate)) =
        some (("name", toJson name) ::
          (optionalMember "return_type" type ++ optionalMember "immediate" immediate)) := by
      cases type <;> cases immediate <;>
        exact record?_object (by simp [optionalMember]) (by simp [optionalMember])
    have htype : optional? (("name", toJson name) ::
        (optionalMember "return_type" type ++ optionalMember "immediate" immediate)) "return_type" =
        some type := optional?_eq (by cases type <;> cases immediate <;> rfl)
    have himmediate : optional? (("name", toJson name) ::
        (optionalMember "return_type" type ++ optionalMember "immediate" immediate)) "immediate" =
        some immediate := optional?_eq (by cases type <;> cases immediate <;> rfl)
    unfold instJsonFormInstruction at *
    dsimp only at *
    rw [hgiven, Option.bind_eq_bind, Option.bind_some, required?_eq (by rfl), htype, himmediate]
    rfl
  plain_toJson instruction := .object (List.cons_ne_nil _ _) (by
    simp only [List.forall_mem_cons, List.forall_mem_append]
    exact ⟨(plain_toJson instruction.name).mono (by decide),
      fun m hm ↦ (forall_mem_optionalMember "return_type" instruction.type m hm).mono (by decide),
      forall_mem_optionalMember "immediate" instruction.immediate⟩)

/-! ### Entries -/

instance : LawfulJsonForm Imported 3 where
  ofJson?_toJson
    | .function typeIndex => congrArg (Imported.function <$> ·) (ofJson?_toJson typeIndex)
    | .table type => congrArg (Imported.table <$> ·) (ofJson?_toJson type)
    | .memory limits => congrArg (Imported.memory <$> ·) (ofJson?_toJson limits)
    | .global type => congrArg (Imported.global <$> ·) (ofJson?_toJson type)
  plain_toJson item := by
    cases item <;> exact (plain_variant (plain_toJson _) _).mono (by decide)

instance : LawfulJsonForm Import 4 where
  ofJson?_toJson entry := read_three (by decide) (by decide) (by decide) Import.mk entry.moduleName
    entry.field entry.item
  plain_toJson entry := plain_three (plain_toJson entry.moduleName) (plain_toJson entry.field)
    (plain_toJson entry.item) _ _ _

instance : LawfulJsonForm Global 5 where
  ofJson?_toJson entry := read_two (by decide) Global.mk entry.type entry.init
  plain_toJson entry := plain_two (plain_toJson entry.type) (plain_toJson entry.init) _ _

instance : LawfulJsonForm Export 1 where
  ofJson?_toJson entry := read_three (by decide) (by decide) (by decide) Export.mk entry.field
    entry.kind entry.index
  plain_toJson entry := plain_three (plain_toJson entry.field) (plain_toJson entry.kind)
    (plain_toJson entry.index) _ _ _

instance : LawfulJsonForm ElementSegment 5 where
  ofJson?_toJson segment := read_three (by decide) (by decide) (by decide) ElementSegment.mk
    segment.table segment.offset segment.functions
  plain_toJson segment := plain_three (plain_toJson segment.table) (plain_toJson segment.offset)
    (plain_toJson segment.functions) _ _ _

instance : LawfulJsonForm LocalGroup 1 where
  ofJson?_toJson group := read_two (by decide) LocalGroup.mk group.count group.type
  plain_toJson group := plain_two (plain_toJson group.count) (plain_toJson group.type) _ _

instance : LawfulJsonForm FunctionBody 6 where
  ofJson?_toJson body := read_two (by decide) FunctionBody.mk body.locals body.code
  plain_toJson body := plain_two (plain_toJson body.locals) (plain_toJson body.code) _ _

instance : LawfulJsonForm DataSegment 5 where
  ofJson?_toJson segment := read_three (by decide) (by decide) (by decide) DataSegment.mk
    segment.memory segment.offset segment.data
  plain_toJson segment := plain_three (plain_toJson segment.memory) (plain_toJson segment.offset)
    (plain_toJson segment.data) _ _ _

/-! ### Sections and modules -/

namespace Section

/-- No field of a section has the name that the kind of the section is given by. -/
theorem ne_kindField (s : Section) : ∀ m ∈ s.contentMembers, m.1 ≠ kindField := by
  cases s <;> simp [contentMembers, kindField]

theorem plain_contentMembers (s : Section) : ∀ m ∈ s.contentMembers, m.2.Plain 7 := by
  cases s with
  | custom name payload =>
    refine List.forall_mem_cons.mpr ⟨(plain_toJson name).mono (by decide), ?_⟩
    exact List.forall_mem_singleton.mpr ((plain_toJson payload).mono (by decide))
  | _ => exact List.forall_mem_singleton.mpr ((plain_toJson _).mono (by decide))

theorem plain_toJson (s : Section) : (toJson s).Plain 8 :=
  .object (List.cons_ne_nil _ _)
    (List.forall_mem_cons.mpr ⟨.string 7 s.id.name, s.plain_contentMembers⟩)

/-- The kind of a section is found among its members. -/
theorem kindOfJson?_toJson (s : Section) : kindOfJson? (toJson s) = some (s.id, toJson s) := by
  have hfilter : (((kindField, Json.string s.id.name) :: s.contentMembers).filter fun m ↦
      m.1 == kindField) = [(kindField, .string s.id.name)] := by
    rw [List.filter_cons_of_pos (by simp), List.filter_eq_nil_iff.mpr]
    intro m hm hkind
    exact s.ne_kindField m hm (eq_of_beq hkind)
  have hname : kindOfJson? (.object ((kindField, .string s.id.name) :: s.contentMembers)) =
      (SectionId.ofName? s.id.name).map (·, .object ((kindField, .string s.id.name) ::
        s.contentMembers)) := by
    simp only [kindOfJson?, hfilter]
  rw [SectionId.ofName?_name, Option.map_some] at hname
  exact hname

theorem entries?_object {α : Type} {levels : Nat} [JsonForm α] [LawfulJsonForm α levels]
    (kind : Json) (entries : List α) :
    entries? (.object [(kindField, kind), ("entries", toJson entries)]) = some entries := by
  have hgiven : record? ["entries"] (.object [(kindField, kind), ("entries", toJson entries)]) =
      some [("entries", toJson entries)] := by
    rw [record?_cons_of_notMem (by decide), record?_object (by simp) (by simp)]
  rw [entries?, hgiven, Option.bind_eq_bind, Option.bind_some, required?_eq (by rfl)]

/-- The fields of a section are read beside its kind. -/
theorem contentOfJson?_toJson (s : Section) : contentOfJson? s.id (toJson s) = some s := by
  cases s with
  | custom name payload =>
    have hkind : kindField ∉ ["section_name", "payload"] := by decide
    calc
      _ = (do
            let given ← record? ["section_name", "payload"] (.object
              ((kindField, .string "custom") ::
                [("section_name", toJson name), ("payload", toJson payload)]))
            pure (custom (← required? given "section_name") (← required? given "payload"))) := rfl
      _ = some (custom name payload) := by
        rw [record?_cons_of_notMem hkind]
        exact read_two (by decide) custom name payload
  | start function =>
    have hkind : kindField ∉ ["index"] := by decide
    calc
      _ = (do
            let given ← record? ["index"] (.object ((kindField, .string "start") ::
              [("index", toJson function)]))
            pure (start (← required? given "index"))) := rfl
      _ = some (start function) := by
        rw [record?_cons_of_notMem hkind, record?_object (by simp) (by simp), Option.bind_eq_bind,
          Option.bind_some, required?_eq (by rfl)]
        rfl
  | types entries => exact congrArg (types <$> ·) (entries?_object _ entries)
  | imports entries => exact congrArg (imports <$> ·) (entries?_object _ entries)
  | functions entries => exact congrArg (functions <$> ·) (entries?_object _ entries)
  | tables entries => exact congrArg (tables <$> ·) (entries?_object _ entries)
  | memories entries => exact congrArg (memories <$> ·) (entries?_object _ entries)
  | globals entries => exact congrArg (globals <$> ·) (entries?_object _ entries)
  | exports entries => exact congrArg (exports <$> ·) (entries?_object _ entries)
  | elements segments => exact congrArg (elements <$> ·) (entries?_object _ segments)
  | code bodies => exact congrArg (code <$> ·) (entries?_object _ bodies)
  | data segments => exact congrArg (data <$> ·) (entries?_object _ segments)

end Section

instance : LawfulJsonForm Section 8 where
  ofJson?_toJson s := by
    have hplain := s.plain_toJson
    calc
      _ = (do
            guard (toJson s).isUsable
            let (id, content) ← Section.kindOfJson? (toJson s).nullNames
            Section.contentOfJson? id content) := rfl
      _ = Section.contentOfJson? s.id (toJson s) := by
        rw [hplain.isUsable, hplain.nullNames, Section.kindOfJson?_toJson]
        rfl
      _ = some s := s.contentOfJson?_toJson
  plain_toJson s := s.plain_toJson

instance : LawfulJsonForm Preamble 2 where
  ofJson?_toJson preamble := read_two (by decide) Preamble.mk preamble.magic preamble.version
  plain_toJson preamble :=
    plain_two (plain_toJson preamble.magic) (plain_toJson preamble.version) _ _

instance : LawfulJsonForm Module 10 where
  ofJson?_toJson m := read_two (by decide) Module.mk m.preamble m.sections
  plain_toJson m := plain_two (plain_toJson m.preamble) (plain_toJson m.sections) _ _

end WasmMeter
