import Mathlib.Data.List.TakeDrop
import WasmMeter.Module

/-!
# The first section of a kind

What is asked about a kind of section is answered by the first section of it. The answer is not
affected by a change that replaces or inserts sections of other kinds
(`findSome?_replaceFirst_map_of_none`, `Module.findSome?_insertInto_of_none`), and a change of the
entries of the first section of the kind changes the answer alike (`findSome?_replaceFirst_map`).

Where only one section of the kind is there, the first one is all of them: it is replaced and asked
wherever it stands (`replaceFirst_eq_map`, `findSome?_eq_some_of_mem`).
-/

set_option autoImplicit false

namespace WasmMeter

variable {α β : Type}

/-! ### Lists -/

/-- A question to which neither the old nor the new element gives an answer. -/
theorem findSome?_replaceFirst_of_none {f : α → Option α} {query : α → Option β}
    (h : ∀ a b, f a = some b → query a = none ∧ query b = none) (list : List α) :
    (replaceFirst f list).findSome? query = list.findSome? query := by
  induction list with
  | nil => rfl
  | cons a later ih =>
    rw [replaceFirst]
    split
    · next b hb => simp [h a b hb]
    · next hnone => rw [List.findSome?_cons, List.findSome?_cons, ih]

/-- The first element of a kind is replaced by one of its kind, of which the question knows
nothing. -/
theorem findSome?_replaceFirst_map_of_none {γ : Type} (kind : α → Option γ) {wrap : γ → α}
    (hkind : ∀ a c, kind a = some c → a = wrap c) {query : α → Option β}
    (hquery : ∀ c, query (wrap c) = none) (f : γ → γ) (list : List α) :
    (replaceFirst (fun a ↦ (kind a).map fun c ↦ wrap (f c)) list).findSome? query =
      list.findSome? query := by
  refine findSome?_replaceFirst_of_none (fun a b hb ↦ ?_) list
  obtain ⟨c, hc, rfl⟩ := Option.map_eq_some_iff.mp hb
  rw [hkind a c hc]
  exact ⟨hquery c, hquery (f c)⟩

/-- The first element that answers a question is replaced by one with another answer. -/
theorem findSome?_replaceFirst_map (query : α → Option β) {wrap : β → α}
    (hwrap : ∀ b, query (wrap b) = some b) (f : β → β) (list : List α) :
    (replaceFirst (fun a ↦ (query a).map fun b ↦ wrap (f b)) list).findSome? query =
      (list.findSome? query).map f := by
  induction list with
  | nil => rfl
  | cons a later ih =>
    rw [replaceFirst, List.findSome?_cons]
    cases hquery : query a with
    | none =>
      simp only [Option.map_none]
      rw [List.findSome?_cons, hquery, ih]
    | some b =>
      simp only [Option.map_some]
      rw [List.findSome?_cons, hwrap]

/-- The first element is asked first. -/
theorem findSome?_cons_eq_or (query : α → Option β) (a : α) (later : List α) :
    (a :: later).findSome? query = (query a).or (later.findSome? query) := by
  rw [List.findSome?_cons]
  cases query a <;> rfl

/-- The parts of all elements are asked one after another. -/
theorem findSome?_flatMap {γ : Type} (parts : α → List β) (query : β → Option γ) (list : List α) :
    (list.flatMap parts).findSome? query = list.findSome? fun a ↦ (parts a).findSome? query := by
  induction list with
  | nil => rfl
  | cons a later ih =>
    rw [List.flatMap_cons, List.findSome?_append, findSome?_cons_eq_or, ih]

/-! ### Lists with one element of a kind -/

/-- The one element for which there is a replacement is replaced wherever it stands. -/
theorem replaceFirst_eq_map {f : α → Option α} {list : List α}
    (h : list.Pairwise fun a b ↦ f a = none ∨ f b = none) :
    replaceFirst f list = list.map fun a ↦ (f a).getD a := by
  induction list with
  | nil => rfl
  | cons a later ih =>
    obtain ⟨hfirst, hlater⟩ := List.pairwise_cons.mp h
    rw [replaceFirst, List.map_cons]
    cases hb : f a with
    | none =>
      simp only
      rw [ih hlater, Option.getD_none]
    | some b =>
      have hkept : ∀ other ∈ later, (f other).getD other = other := fun other hmem ↦ by
        rw [(hfirst other hmem).resolve_left (by rw [hb]; exact nofun), Option.getD_none]
      simp only
      rw [List.map_congr_left hkept, List.map_id', Option.getD_some]

/-- The one element that answers a question answers it wherever it stands. -/
theorem findSome?_eq_some_of_mem {query : α → Option β} {list : List α}
    (h : list.Pairwise fun a b ↦ query a = none ∨ query b = none) {a : α} (hmem : a ∈ list)
    {b : β} (hquery : query a = some b) : list.findSome? query = some b := by
  induction list with
  | nil => cases hmem
  | cons first later ih =>
    obtain ⟨hfirst, hlater⟩ := List.pairwise_cons.mp h
    rw [List.findSome?_cons]
    rcases List.mem_cons.mp hmem with rfl | hmem
    · rw [hquery]
    · rw [(hfirst a hmem).resolve_right (by rw [hquery]; exact nofun)]
      exact ih hlater hmem

/-- The answers of the elements one behind the other, if one of them has any. -/
theorem flatMap_getD_eq {query : α → Option (List β)} {list : List α}
    (h : list.Pairwise fun a b ↦ query a = none ∨ query b = none) :
    list.flatMap (fun a ↦ (query a).getD []) = (list.findSome? query).getD [] := by
  induction list with
  | nil => rfl
  | cons a later ih =>
    obtain ⟨hfirst, hlater⟩ := List.pairwise_cons.mp h
    rw [List.flatMap_cons, List.findSome?_cons]
    cases hquery : query a with
    | none => exact ih hlater
    | some answer =>
      have hnone : ∀ other ∈ later, (query other).getD [] = [] := fun other hmem ↦ by
        rw [(hfirst other hmem).resolve_left (by rw [hquery]; exact nofun), Option.getD_none]
      rw [Option.getD_some, List.flatMap_eq_nil_iff.mpr hnone, List.append_nil]

/-! ### Some elements of a list -/

theorem filter_replaceFirst {f : α → Option α} {p : α → Bool}
    (h : ∀ a b, f a = some b → p a = true ∧ p b = true) (list : List α) :
    (replaceFirst f list).filter p = replaceFirst f (list.filter p) := by
  induction list with
  | nil => rfl
  | cons a later ih =>
    rw [replaceFirst]
    cases hb : f a with
    | none =>
      simp only [List.filter_cons, ih]
      split
      · rw [replaceFirst, hb]
      · rfl
    | some b =>
      obtain ⟨ha, hp⟩ := h a b hb
      rw [List.filter_cons_of_pos ha, replaceFirst, hb]
      exact List.filter_cons_of_pos hp

/-- What is replaced is an element of the list. -/
theorem mem_replaceFirst {f : α → Option α} {list : List α} {b : α} (h : b ∈ replaceFirst f list) :
    b ∈ list ∨ ∃ a ∈ list, f a = some b := by
  induction list with
  | nil => cases h
  | cons a later ih =>
    rw [replaceFirst] at h
    split at h
    · next b' hb' =>
      rcases List.mem_cons.mp h with rfl | hlater
      · exact .inr ⟨a, List.mem_cons_self, hb'⟩
      · exact .inl (List.mem_cons_of_mem a hlater)
    · rcases List.mem_cons.mp h with rfl | hlater
      · exact .inl List.mem_cons_self
      · refine (ih hlater).imp (List.mem_cons_of_mem a) fun ⟨a', hmem, ha'⟩ ↦ ?_
        exact ⟨a', List.mem_cons_of_mem a hmem, ha'⟩

/-- An element is replaced by one that has the same parts. -/
theorem flatMap_replaceFirst {f : α → Option α} {parts : α → List β}
    (h : ∀ a b, f a = some b → parts b = parts a) (list : List α) :
    (replaceFirst f list).flatMap parts = list.flatMap parts := by
  induction list with
  | nil => rfl
  | cons a later ih =>
    rw [replaceFirst]
    split
    · next b hb => rw [List.flatMap_cons, List.flatMap_cons, h a b hb]
    · rw [List.flatMap_cons, List.flatMap_cons, ih]

theorem filter_replaceFirst_of_not {f : α → Option α} {p : α → Bool}
    (h : ∀ a b, f a = some b → p a = false ∧ p b = false) (list : List α) :
    (replaceFirst f list).filter p = list.filter p := by
  induction list with
  | nil => rfl
  | cons a later ih =>
    rw [replaceFirst]
    cases hb : f a with
    | none => simp only [List.filter_cons, ih]
    | some b =>
      obtain ⟨ha, hp⟩ := h a b hb
      simp [ha, hp]

/-! ### Modules -/

namespace Module

/-- A section is inserted somewhere. -/
theorem exists_insertInto_eq (s : Section) (sections : List Section) :
    ∃ before behind, before ++ behind = sections ∧
      insertInto s sections = before ++ s :: behind := by
  refine ⟨_, _, List.takeWhile_append_dropWhile (p := fun other ↦ !comesAfter s.id other), ?_⟩
  rw [insertInto, List.span_eq_takeWhile_dropWhile]

/-- A section is asked in its turn. -/
theorem findSome?_insertInto (query : Section → Option β) (s : Section) (sections : List Section) :
    ∃ before behind, before ++ behind = sections ∧
      (insertInto s sections).findSome? query =
        (before.findSome? query).or ((query s).or (behind.findSome? query)) := by
  obtain ⟨before, behind, hsections, hinsert⟩ := exists_insertInto_eq s sections
  refine ⟨before, behind, hsections, ?_⟩
  rw [hinsert, List.findSome?_append, findSome?_cons_eq_or]

/-- A section without an answer is inserted. -/
theorem findSome?_insertInto_of_none {query : Section → Option β} {s : Section}
    (hs : query s = none) (sections : List Section) :
    (insertInto s sections).findSome? query = sections.findSome? query := by
  obtain ⟨before, behind, rfl, hquery⟩ := findSome?_insertInto query s sections
  rw [hquery, hs, Option.none_or, List.findSome?_append]

/-- A section with an answer is inserted where there was none. -/
theorem findSome?_insertInto_of_some {query : Section → Option β} {s : Section} {b : β}
    (hs : query s = some b) {sections : List Section} (hnone : sections.findSome? query = none) :
    (insertInto s sections).findSome? query = some b := by
  obtain ⟨before, behind, rfl, hquery⟩ := findSome?_insertInto query s sections
  rw [List.findSome?_append, Option.or_eq_none_iff] at hnone
  rw [hquery, hs, hnone.1]
  rfl

/-- A section without parts is inserted. -/
theorem flatMap_insertInto_of_nil {parts : Section → List β} {s : Section} (hs : parts s = [])
    (sections : List Section) :
    (insertInto s sections).flatMap parts = sections.flatMap parts := by
  obtain ⟨before, behind, rfl, hinsert⟩ := exists_insertInto_eq s sections
  rw [hinsert, List.flatMap_append, List.flatMap_cons, hs, List.nil_append, List.flatMap_append]

theorem filter_insertInto_of_not {p : Section → Bool} {s : Section} (hs : p s = false)
    (sections : List Section) : (insertInto s sections).filter p = sections.filter p := by
  obtain ⟨before, behind, rfl, hinsert⟩ := exists_insertInto_eq s sections
  rw [hinsert, List.filter_append, List.filter_cons_of_neg (by simp [hs]), List.filter_append]

end Module

end WasmMeter
