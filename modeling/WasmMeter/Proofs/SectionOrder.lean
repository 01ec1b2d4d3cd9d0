import WasmMeter.Proofs.FirstSection

/-!
# The order of sections

Custom sections may stand anywhere, and the others stand in the order of their kinds. A section that
is inserted takes no notice of custom sections: among the sections that are not custom it stands
where it would stand if there were no other ones (`Module.ordinary_insertInto`), so that what is in
order stays in order (`Module.sorted_insertInto`), and no kind is repeated if the kind of the
section is a new one (`Module.strictlySorted_insertInto`).
-/

set_option autoImplicit false

namespace WasmMeter

namespace Module

/-! ### Kinds -/

/-- The sections that are not custom. -/
def ordinary (sections : List Section) : List Section :=
  sections.filter fun s ↦ s.id != .custom

/-- The kinds of sections, custom sections aside. -/
def kinds (sections : List Section) : List SectionId := (ordinary sections).map Section.id

/-- The kinds of sections do not decrease, custom sections aside. -/
def Sorted (sections : List Section) : Prop :=
  (kinds sections).Pairwise fun id id' ↦ id.toByte ≤ id'.toByte

/-- The kinds of sections increase, custom sections aside. -/
def StrictlySorted (sections : List Section) : Prop :=
  (kinds sections).Pairwise fun id id' ↦ id.toByte < id'.toByte

instance (sections : List Section) : Decidable (StrictlySorted sections) :=
  inferInstanceAs (Decidable ((kinds sections).Pairwise _))

theorem ordinary_cons_of_custom {s : Section} (hs : s.id = .custom) (later : List Section) :
    ordinary (s :: later) = ordinary later := by
  simp [ordinary, hs]

theorem ordinary_cons_of_ne {s : Section} (hs : s.id ≠ .custom) (later : List Section) :
    ordinary (s :: later) = s :: ordinary later := by
  simp [ordinary, hs]

theorem kinds_cons_of_custom {s : Section} (hs : s.id = .custom) (later : List Section) :
    kinds (s :: later) = kinds later := by
  rw [kinds, ordinary_cons_of_custom hs, kinds]

theorem kinds_cons_of_ne {s : Section} (hs : s.id ≠ .custom) (later : List Section) :
    kinds (s :: later) = s.id :: kinds later := by
  rw [kinds, ordinary_cons_of_ne hs, List.map_cons, kinds]

theorem toByte_eq_iff {id id' : SectionId} : id.toByte = id'.toByte ↔ id = id' := by
  refine ⟨fun h ↦ ?_, congrArg SectionId.toByte⟩
  rw [← Option.some_inj, ← SectionId.ofByte?_toByte, h, SectionId.ofByte?_toByte]

/-- The kinds are strictly increasing if they do not decrease and none is repeated. -/
theorem strictlySorted_iff {sections : List Section} :
    StrictlySorted sections ↔ Sorted sections ∧ (kinds sections).Nodup := by
  have hlt (id id' : SectionId) :
      id.toByte < id'.toByte ↔ id.toByte ≤ id'.toByte ∧ id ≠ id' := by
    rw [UInt8.lt_iff_le_and_ne]
    exact and_congr_right fun _ ↦ not_congr toByte_eq_iff
  unfold StrictlySorted
  simp only [hlt]
  exact List.pairwise_and_iff

/-! ### Insertion -/

theorem insertInto_cons_of_comesAfter {s a : Section} (h : comesAfter s.id a = true)
    (later : List Section) : insertInto s (a :: later) = s :: a :: later := by
  simp [insertInto, List.span_eq_takeWhile_dropWhile, h]

theorem insertInto_cons_of_not_comesAfter {s a : Section} (h : comesAfter s.id a = false)
    (later : List Section) : insertInto s (a :: later) = a :: insertInto s later := by
  simp [insertInto, List.span_eq_takeWhile_dropWhile, h]

theorem not_comesAfter_of_custom {a : Section} (ha : a.id = .custom) (id : SectionId) :
    comesAfter id a = false := by
  rw [comesAfter, ha]
  rfl

theorem comesAfter_iff_of_ne {a : Section} (ha : a.id ≠ .custom) (id : SectionId) :
    comesAfter id a = true ↔ id.toByte < a.id.toByte := by
  simp [comesAfter, ha]

/-- A section is inserted among those that are not custom as if there were no other ones. -/
theorem ordinary_insertInto {s : Section} (hs : s.id ≠ .custom) (sections : List Section) :
    ordinary (insertInto s sections) = insertInto s (ordinary sections) := by
  induction sections with
  | nil => exact ordinary_cons_of_ne hs []
  | cons a later ih =>
    by_cases ha : a.id = .custom
    · rw [insertInto_cons_of_not_comesAfter (not_comesAfter_of_custom ha s.id),
        ordinary_cons_of_custom ha, ordinary_cons_of_custom ha, ih]
    · rw [ordinary_cons_of_ne ha later]
      by_cases hafter : comesAfter s.id a = true
      · rw [insertInto_cons_of_comesAfter hafter, insertInto_cons_of_comesAfter hafter,
          ordinary_cons_of_ne hs, ordinary_cons_of_ne ha]
      · rw [Bool.not_eq_true] at hafter
        rw [insertInto_cons_of_not_comesAfter hafter, insertInto_cons_of_not_comesAfter hafter,
          ordinary_cons_of_ne ha, ih]

theorem insertInto_perm (s : Section) (sections : List Section) :
    (insertInto s sections).Perm (s :: sections) := by
  obtain ⟨before, behind, rfl, hinsert⟩ := exists_insertInto_eq s sections
  rw [hinsert]
  exact List.perm_middle

theorem kinds_insertInto_perm {s : Section} (hs : s.id ≠ .custom) (sections : List Section) :
    (kinds (insertInto s sections)).Perm (s.id :: kinds sections) := by
  rw [← kinds_cons_of_ne hs]
  exact ((insertInto_perm s sections).filter _).map Section.id

/-- Sections in order stay in order if another one is inserted. -/
theorem sorted_insertInto {s : Section} (hs : s.id ≠ .custom) {sections : List Section}
    (h : Sorted sections) : Sorted (insertInto s sections) := by
  induction sections with
  | nil =>
    show (kinds [s]).Pairwise _
    rw [kinds_cons_of_ne hs]
    exact List.pairwise_singleton _ s.id
  | cons a later ih =>
    by_cases ha : a.id = .custom
    · rw [Sorted, kinds_cons_of_custom ha] at h
      rw [insertInto_cons_of_not_comesAfter (not_comesAfter_of_custom ha s.id), Sorted,
        kinds_cons_of_custom ha]
      exact ih h
    · have hsorted := h
      rw [Sorted, kinds_cons_of_ne ha, List.pairwise_cons] at hsorted
      by_cases hafter : comesAfter s.id a = true
      · -- The section stands in front of this one, and so in front of all that follow.
        have hle : s.id.toByte ≤ a.id.toByte :=
          UInt8.le_of_lt ((comesAfter_iff_of_ne ha s.id).mp hafter)
        rw [insertInto_cons_of_comesAfter hafter, Sorted, kinds_cons_of_ne hs, List.pairwise_cons]
        refine ⟨fun id hid ↦ ?_, h⟩
        rw [kinds_cons_of_ne ha, List.mem_cons] at hid
        rcases hid with rfl | hlater
        · exact hle
        · exact UInt8.le_trans hle (hsorted.1 id hlater)
      · have hle : a.id.toByte ≤ s.id.toByte :=
          UInt8.not_lt.mp (mt (comesAfter_iff_of_ne ha s.id).mpr hafter)
        rw [Bool.not_eq_true] at hafter
        rw [insertInto_cons_of_not_comesAfter hafter, Sorted, kinds_cons_of_ne ha,
          List.pairwise_cons]
        refine ⟨fun id hid ↦ ?_, ih hsorted.2⟩
        rw [(kinds_insertInto_perm hs later).mem_iff, List.mem_cons] at hid
        rcases hid with rfl | hlater
        · exact hle
        · exact hsorted.1 id hlater

/-- Sections of different kinds in order stay so if one of another kind is inserted. -/
theorem strictlySorted_insertInto {s : Section} (hs : s.id ≠ .custom) {sections : List Section}
    (hnew : s.id ∉ kinds sections) (h : StrictlySorted sections) :
    StrictlySorted (insertInto s sections) := by
  rw [strictlySorted_iff] at h ⊢
  refine ⟨sorted_insertInto hs h.1, ?_⟩
  rw [(kinds_insertInto_perm hs sections).nodup_iff, List.nodup_cons]
  exact ⟨hnew, h.2⟩

end Module

end WasmMeter
