import Mathlib.Data.List.Basic
import WasmMeter.Proofs.SectionOrder

/-!
# Histories of insertions

Sections are inserted into a module one after another (`Module.insertAll`). One insertion keeps
the order of the kinds, keeps the sections that are there in their places, and puts the section
behind those of its kind (`Module.ofKind_insertInto`), so a whole history does
(`Module.followsOrder_insertAll`).

That is enough to know the sections that are not custom: in order, and with those of one kind in the
order in which they came, they are the stable sort of all that came (`Module.eq_of_ofKind_eq`,
`Module.ordinary_insertAll`). Where the custom sections end up depends on where they stood. If all
of them stand in front, as they do where there is no section yet, the next one is put behind them
and in front of the others (`Module.insertInto_eq_of_customsFirst`), so they stay there in the order
in which they came.
-/

set_option autoImplicit false

namespace WasmMeter

namespace Module

variable {s : Section} {sections : List Section}

/-! ### Definitions -/

/-- The module with further sections, which are inserted in the order of the list. -/
def insertAll (m : Module) (arrivals : List Section) : Module := arrivals.foldl insert m

/-- The sections of a kind. -/
def ofKind (id : SectionId) (sections : List Section) : List Section :=
  sections.filter fun s ↦ s.id == id

/-- Whether the kind of a section is not behind that of another one. -/
def notBehind (s s' : Section) : Bool := s.id.toByte ≤ s'.id.toByte

/-- The sections in the order of their kinds, those of one kind in the order of the list. -/
def stableSort (sections : List Section) : List Section := sections.mergeSort notBehind

/-- What a history of insertions does to a module: the kinds are in order, all sections are there
that were there or came, they stand as they stood at any time before, and those of one kind stand in
the order in which they came. -/
structure FollowsOrder (m : Module) (arrivals : List Section) : Prop where
  preamble : (m.insertAll arrivals).preamble = m.preamble
  sorted : Sorted (m.insertAll arrivals).sections
  perm : (m.insertAll arrivals).sections.Perm (m.sections ++ arrivals)
  keeps : ∀ earlier later, arrivals = earlier ++ later →
    (m.insertAll earlier).sections.Sublist (m.insertAll arrivals).sections
  arrived : ∀ id ≠ SectionId.custom,
    ofKind id (m.insertAll arrivals).sections = ofKind id m.sections ++ ofKind id arrivals

/-! ### One insertion -/

theorem ordinary_insertInto_of_custom (hs : s.id = .custom) (sections : List Section) :
    ordinary (insertInto s sections) = ordinary sections :=
  filter_insertInto_of_not (by simp [hs]) sections

/-- Sections in order stay in order, whatever is inserted. -/
theorem sorted_insertInto_of_sorted (s : Section) (h : Sorted sections) :
    Sorted (insertInto s sections) := by
  by_cases hs : s.id = .custom
  · rwa [Sorted, kinds, ordinary_insertInto_of_custom hs]
  · exact sorted_insertInto hs h

/-- The sections that are there stay as they stand. -/
theorem sublist_insertInto (s : Section) (sections : List Section) :
    sections.Sublist (insertInto s sections) := by
  obtain ⟨before, behind, rfl, hinsert⟩ := exists_insertInto_eq s sections
  rw [hinsert]
  exact (List.Sublist.refl before).append (List.sublist_cons_self s behind)

theorem mem_kinds (hmem : s ∈ sections) (hs : s.id ≠ .custom) : s.id ∈ kinds sections :=
  List.mem_map.mpr ⟨s, List.mem_filter.mpr ⟨hmem, by simp [hs]⟩, rfl⟩

/-- Nothing behind the first of sections in order is of a kind in front of it. -/
theorem toByte_le_of_mem {a : Section} {later : List Section} (ha : a.id ≠ .custom)
    (h : Sorted (a :: later)) (hmem : s ∈ later) (hs : s.id ≠ .custom) :
    a.id.toByte ≤ s.id.toByte := by
  rw [Sorted, kinds_cons_of_ne ha, List.pairwise_cons] at h
  exact h.1 s.id (mem_kinds hmem hs)

theorem Sorted.tail {a : Section} {later : List Section} (h : Sorted (a :: later)) :
    Sorted later := by
  by_cases ha : a.id = .custom
  · rwa [Sorted, kinds_cons_of_custom ha] at h
  · rw [Sorted, kinds_cons_of_ne ha] at h
    exact h.tail

theorem ofKind_append (id : SectionId) (before behind : List Section) :
    ofKind id (before ++ behind) = ofKind id before ++ ofKind id behind :=
  List.filter_append before behind

theorem ofKind_cons (id : SectionId) (a : Section) (later : List Section) :
    ofKind id (a :: later) = ofKind id [a] ++ ofKind id later :=
  ofKind_append id [a] later

theorem ofKind_singleton_of_ne {id : SectionId} (h : s.id ≠ id) : ofKind id [s] = [] := by
  simp [ofKind, h]

/-- Where a section has to stand in front of the first one, there is none of its kind. -/
theorem ofKind_eq_nil_of_comesAfter {a : Section} {later : List Section} (hs : s.id ≠ .custom)
    (hafter : comesAfter s.id a = true) (h : Sorted (a :: later)) :
    ofKind s.id (a :: later) = [] := by
  have ha : a.id ≠ .custom := by
    intro ha
    rw [not_comesAfter_of_custom ha] at hafter
    cases hafter
  have hlt := (comesAfter_iff_of_ne ha s.id).mp hafter
  refine List.filter_eq_nil_iff.mpr fun other hmem hother ↦ ?_
  have hkind : other.id = s.id := by simpa using hother
  rcases List.mem_cons.mp hmem with rfl | hlater
  · rw [hkind] at hlt
    exact UInt8.lt_irrefl _ hlt
  · have hle := toByte_le_of_mem ha h hlater (hkind ▸ hs)
    rw [hkind] at hle
    exact UInt8.not_le.mpr hlt hle

/-- A section is put behind those of its kind, and the other kinds stay as they are. -/
theorem ofKind_insertInto {id : SectionId} (hid : id ≠ .custom) (s : Section)
    (h : Sorted sections) : ofKind id (insertInto s sections) = ofKind id sections ++ ofKind id [s]
    := by
  by_cases hs : s.id = id
  · subst hs
    induction sections with
    | nil => rfl
    | cons a later ih =>
      by_cases hafter : comesAfter s.id a = true
      · rw [insertInto_cons_of_comesAfter hafter, ofKind_cons,
          ofKind_eq_nil_of_comesAfter hid hafter h, List.append_nil, List.nil_append]
      · rw [Bool.not_eq_true] at hafter
        rw [insertInto_cons_of_not_comesAfter hafter, ofKind_cons _ a, ih h.tail,
          ofKind_cons _ a later, List.append_assoc]
  · rw [ofKind_singleton_of_ne hs, List.append_nil]
    exact filter_insertInto_of_not (by simpa using hs) sections

/-! ### Histories -/

/-- What one insertion does holds of a history of them. -/
theorem followsOrder_insertAll {m : Module} (h : Sorted m.sections) (arrivals : List Section) :
    FollowsOrder m arrivals := by
  induction arrivals generalizing m with
  | nil =>
    exact ⟨rfl, h, by rw [List.append_nil]; exact List.Perm.refl _,
      fun earlier later hnil ↦ by
        rw [(List.append_eq_nil_iff.mp hnil.symm).1],
      fun id _ ↦ (List.append_nil _).symm⟩
  | cons s later ih =>
    have hrest := ih (m := m.insert s) (sorted_insertInto_of_sorted s h)
    refine ⟨hrest.preamble, hrest.sorted, ?_, fun earlier behind harrivals ↦ ?_, fun id hid ↦ ?_⟩
    · refine hrest.perm.trans (((insertInto_perm s m.sections).append_right later).trans ?_)
      exact List.perm_middle.symm
    · cases earlier with
      | nil =>
        -- Nothing had come yet, and the first section that comes leaves all as it stands.
        exact (sublist_insertInto s m.sections).trans (hrest.keeps [] later rfl)
      | cons first earlier =>
        obtain ⟨rfl, hlater⟩ := List.cons.inj harrivals
        exact hrest.keeps earlier behind hlater
    · refine (hrest.arrived id hid).trans ?_
      rw [ofKind_cons id s later, ← List.append_assoc]
      exact congrArg (· ++ ofKind id later) (ofKind_insertInto hid s h)

/-! ### The stable sort -/

theorem ordinary_ordinary (sections : List Section) :
    ordinary (ordinary sections) = ordinary sections := by
  simp [ordinary, List.filter_filter]

theorem ofKind_ordinary {id : SectionId} (hid : id ≠ .custom) (sections : List Section) :
    ofKind id (ordinary sections) = ofKind id sections := by
  rw [ofKind, ordinary, List.filter_filter]
  refine List.filter_congr fun s _ ↦ ?_
  by_cases hs : s.id = id <;> simp [hs, hid]

theorem mem_ofKind_iff {id : SectionId} : s ∈ ofKind id sections ↔ s ∈ sections ∧ s.id = id := by
  rw [ofKind, List.mem_filter, beq_iff_eq]

/-- The first of sections in order is of the first kind that there is. -/
theorem toByte_le_of_ofKind_eq {a b : Section} {later later' : List Section} (hb : b.id ≠ .custom)
    (ha : a.id ≠ .custom) (h : Sorted (b :: later'))
    (hkind : ofKind a.id (a :: later) = ofKind a.id (b :: later')) :
    b.id.toByte ≤ a.id.toByte := by
  have hmem : a ∈ ofKind a.id (b :: later') := by
    rw [← hkind]
    exact mem_ofKind_iff.mpr ⟨List.mem_cons_self, rfl⟩
  rcases List.mem_cons.mp (mem_ofKind_iff.mp hmem).1 with rfl | hlater
  · exact UInt8.le_refl _
  · exact toByte_le_of_mem hb h hlater ha

/-- Sections in order, none of them custom, are known by what there is of each kind. -/
theorem eq_of_ofKind_eq {l l' : List Section} (hl : Sorted l) (hl' : Sorted l')
    (hordinary : ∀ s ∈ l, s.id ≠ .custom) (hordinary' : ∀ s ∈ l', s.id ≠ .custom)
    (h : ∀ id ≠ SectionId.custom, ofKind id l = ofKind id l') : l = l' := by
  induction l generalizing l' with
  | nil =>
    refine (List.eq_nil_iff_forall_not_mem.mpr fun s hs ↦ ?_).symm
    have hmem : s ∈ ofKind s.id [] := by
      rw [h s.id (hordinary' s hs)]
      exact mem_ofKind_iff.mpr ⟨hs, rfl⟩
    exact List.not_mem_nil hmem
  | cons a later ih =>
    obtain ⟨ha, hlater⟩ := List.forall_mem_cons.mp hordinary
    cases l' with
    | nil =>
      have hmem : a ∈ ofKind a.id [] := by
        rw [← h a.id ha]
        exact mem_ofKind_iff.mpr ⟨List.mem_cons_self, rfl⟩
      exact absurd hmem List.not_mem_nil
    | cons b later' =>
      obtain ⟨hb, hlater'⟩ := List.forall_mem_cons.mp hordinary'
      -- Each of the two first sections is of a kind that the other list has too.
      have hid : a.id = b.id := toByte_eq_iff.mp <| UInt8.le_antisymm
        (toByte_le_of_ofKind_eq ha hb hl (h b.id hb).symm)
        (toByte_le_of_ofKind_eq hb ha hl' (h a.id ha))
      have hkind := h a.id ha
      rw [ofKind, List.filter_cons_of_pos (by simp), ofKind,
        List.filter_cons_of_pos (by simp [hid])] at hkind
      obtain ⟨rfl, -⟩ := List.cons.inj hkind
      refine congrArg (a :: ·) (ih hl.tail hl'.tail hlater hlater' fun id hne ↦ ?_)
      have hkind := h id hne
      rwa [ofKind_cons id a later, ofKind_cons id a later', List.append_cancel_left_eq] at hkind

theorem notBehind_trans (a b c : Section) (hab : notBehind a b = true)
    (hbc : notBehind b c = true) : notBehind a c = true := by
  simp only [notBehind, decide_eq_true_eq] at *
  exact UInt8.le_trans hab hbc

theorem notBehind_total (a b : Section) : (notBehind a b || notBehind b a) = true := by
  simpa [notBehind] using UInt8.le_total a.id.toByte b.id.toByte

theorem stableSort_perm (sections : List Section) : (stableSort sections).Perm sections :=
  List.mergeSort_perm sections notBehind

/-- Sorting puts the kinds in order. -/
theorem sorted_stableSort (sections : List Section) : Sorted (stableSort sections) := by
  have hpairwise := List.pairwise_mergeSort notBehind_trans notBehind_total sections
  refine List.pairwise_map.mpr ((hpairwise.sublist List.filter_sublist).imp fun h ↦ ?_)
  simpa [notBehind] using h

/-- Sorting is stable. -/
theorem ofKind_stableSort (id : SectionId) (sections : List Section) :
    ofKind id (stableSort sections) = ofKind id sections := by
  have hequal : (ofKind id sections).Pairwise fun s s' ↦ notBehind s s' = true := by
    refine List.pairwise_of_forall_mem_list fun s hs s' hs' ↦ ?_
    rw [notBehind, (mem_ofKind_iff.mp hs).2, (mem_ofKind_iff.mp hs').2]
    exact decide_eq_true (UInt8.le_refl _)
  have hsublist : (ofKind id sections).Sublist (stableSort sections) :=
    List.sublist_mergeSort notBehind_trans notBehind_total hequal List.filter_sublist
  have hkind : (ofKind id sections).Sublist (ofKind id (stableSort sections)) := by
    have hfilter := hsublist.filter fun s ↦ s.id == id
    simp only [ofKind, List.filter_filter, Bool.and_self] at hfilter
    exact hfilter
  exact (hkind.eq_of_length ((stableSort_perm sections).filter _).length_eq.symm).symm

theorem ne_custom_of_mem_ordinary (h : s ∈ ordinary sections) : s.id ≠ .custom := by
  simpa using (List.mem_filter.mp h).2

/-- After any history the sections that are not custom are the stable sort of those that were there
and those that came. -/
theorem ordinary_insertAll {m : Module} (h : Sorted m.sections) (arrivals : List Section) :
    ordinary (m.insertAll arrivals).sections =
      stableSort (ordinary m.sections ++ ordinary arrivals) := by
  have hfollows := followsOrder_insertAll h arrivals
  refine eq_of_ofKind_eq ?_ (sorted_stableSort _) (fun s ↦ ne_custom_of_mem_ordinary)
    (fun s hs ↦ ?_) fun id hid ↦ ?_
  · rw [Sorted, kinds, ordinary_ordinary]
    exact hfollows.sorted
  · rcases List.mem_append.mp ((stableSort_perm _).mem_iff.mp hs) with hs | hs
    · exact ne_custom_of_mem_ordinary hs
    · exact ne_custom_of_mem_ordinary hs
  · rw [ofKind_ordinary hid, hfollows.arrived id hid, ofKind_stableSort, ofKind_append,
      ofKind_ordinary hid, ofKind_ordinary hid]

/-! ### Custom sections in front -/

/-- The custom sections stand in front of the others. -/
def CustomsFirst (sections : List Section) : Prop :=
  sections = ofKind .custom sections ++ ordinary sections

theorem insertInto_append_of_custom {customs : List Section} (h : ∀ a ∈ customs, a.id = .custom)
    (s : Section) (rest : List Section) :
    insertInto s (customs ++ rest) = customs ++ insertInto s rest := by
  induction customs with
  | nil => rfl
  | cons a later ih =>
    obtain ⟨ha, hlater⟩ := List.forall_mem_cons.mp h
    rw [List.cons_append, insertInto_cons_of_not_comesAfter (not_comesAfter_of_custom ha s.id),
      ih hlater, List.cons_append]

/-- Every section that is not custom comes behind a custom one. -/
theorem insertInto_ordinary_of_custom (hs : s.id = .custom) (sections : List Section) :
    insertInto s (ordinary sections) = s :: ordinary sections := by
  cases hordinary : ordinary sections with
  | nil => rfl
  | cons a later =>
    have ha : a.id ≠ .custom :=
      ne_custom_of_mem_ordinary (by rw [hordinary]; exact List.mem_cons_self)
    have hafter : comesAfter s.id a = true := by
      rw [comesAfter_iff_of_ne ha, hs]
      revert ha
      cases a.id <;> decide
    exact insertInto_cons_of_comesAfter hafter later

/-- A custom section is put behind the custom ones, and any other section among the others. -/
theorem insertInto_eq_of_customsFirst (h : CustomsFirst sections) (s : Section) :
    insertInto s sections =
      ofKind .custom sections ++ ofKind .custom [s] ++ ordinary (insertInto s sections) := by
  have hcustoms : ∀ a ∈ ofKind .custom sections, a.id = .custom :=
    fun a ha ↦ (mem_ofKind_iff.mp ha).2
  by_cases hs : s.id = .custom
  · have hself : ofKind .custom [s] = [s] := by simp [ofKind, hs]
    rw [ordinary_insertInto_of_custom hs, hself, List.append_assoc, List.singleton_append,
      ← insertInto_ordinary_of_custom hs, ← insertInto_append_of_custom hcustoms, ← h]
  · rw [ofKind_singleton_of_ne hs, List.append_nil, ordinary_insertInto hs,
      ← insertInto_append_of_custom hcustoms, ← h]

/-- The custom sections stay in front. -/
theorem ofKind_custom_insertInto (h : CustomsFirst sections) (s : Section) :
    ofKind .custom (insertInto s sections) = ofKind .custom sections ++ ofKind .custom [s] := by
  have hself (list : List Section) : ofKind .custom (ofKind .custom list) = ofKind .custom list :=
    List.filter_eq_self.mpr fun a ha ↦ (List.mem_filter.mp ha).2
  have hnone : ofKind .custom (ordinary (insertInto s sections)) = [] :=
    List.filter_eq_nil_iff.mpr fun a ha ↦ by simpa using ne_custom_of_mem_ordinary ha
  rw [insertInto_eq_of_customsFirst h, ofKind_append, ofKind_append, hself, hself, hnone,
    List.append_nil]

/-- If the custom sections stand in front, those that come are put behind them in their order. -/
theorem sections_insertAll_of_customsFirst {m : Module} (h : CustomsFirst m.sections)
    (arrivals : List Section) :
    (m.insertAll arrivals).sections =
      ofKind .custom m.sections ++ ofKind .custom arrivals ++
        ordinary (m.insertAll arrivals).sections := by
  induction arrivals generalizing m with
  | nil =>
    show m.sections = ofKind .custom m.sections ++ [] ++ ordinary m.sections
    rw [List.append_nil]
    exact h
  | cons s later ih =>
    have hcustom := ofKind_custom_insertInto h s
    have hfirst : CustomsFirst (m.insert s).sections :=
      (insertInto_eq_of_customsFirst h s).trans (congrArg (· ++ _) hcustom.symm)
    refine (ih hfirst).trans ?_
    rw [ofKind_cons .custom s later, ← List.append_assoc]
    exact congrArg (· ++ ofKind .custom later ++ _) hcustom

/-- Insertions keep sections in order over whole histories: the kinds do not decrease, what is there
stays as it stands, and sections of one kind stand in the order in which they came. Where there was
no section, the custom sections stand in front in the order in which they came, and behind them the
stable sort of the others. -/
theorem insertAll_inOrder :
    (∀ (m : Module) (arrivals : List Section), Sorted m.sections → FollowsOrder m arrivals) ∧
      ∀ (preamble : Preamble) (arrivals : List Section),
        (Module.mk preamble []).insertAll arrivals =
          ⟨preamble, ofKind .custom arrivals ++ stableSort (ordinary arrivals)⟩ := by
  refine ⟨fun m arrivals h ↦ followsOrder_insertAll h arrivals, fun preamble arrivals ↦ ?_⟩
  have hsorted : Sorted (Module.mk preamble []).sections := List.Pairwise.nil
  have hfirst : CustomsFirst (Module.mk preamble []).sections := rfl
  have hsections : ((Module.mk preamble []).insertAll arrivals).sections =
      ofKind .custom arrivals ++ stableSort (ordinary arrivals) := by
    rw [sections_insertAll_of_customsFirst hfirst, ordinary_insertAll hsorted]
    rfl
  exact congrArg₂ Module.mk (followsOrder_insertAll hsorted arrivals).preamble hsections

/-- A module with a custom section in the middle and two function sections. -/
def interspersed : Module :=
  ⟨.standard, [.types [], .custom "a" [], .functions [0], .functions [1], .code []]⟩

/-- Sections that come in no order, two of them custom and two of one kind. -/
def latecomers : List Section :=
  [.custom "b" [], .functions [2], .imports [], .custom "c" [], .functions [3]]

theorem insertAll_inOrder_latecomers :
    Sorted interspersed.sections ∧ FollowsOrder interspersed latecomers ∧
      (interspersed.insertAll latecomers).sections =
        [.custom "b" [], .custom "c" [], .types [], .custom "a" [], .imports [], .functions [0],
          .functions [1], .functions [2], .functions [3], .code []] ∧
      empty.insertAll latecomers =
        ⟨.standard, ofKind .custom latecomers ++ stableSort (ordinary latecomers)⟩ := by
  have hsorted : Sorted interspersed.sections := by
    unfold Sorted
    decide
  exact ⟨hsorted, insertAll_inOrder.1 interspersed latecomers hsorted, by decide,
    insertAll_inOrder.2 .standard latecomers⟩

end Module

end WasmMeter
