import WasmMeter.Proofs.Gas.CustomSections

/-!
# What the pass leaves alone

A metered module has the sections of the module in their order, with an empty type section and an
empty import section among them if it had none (`WithSection`). The first section of each kind is
changed in its place (`FirstsChanged`): a type section gets the signature of the metering function
and an import section the import of it, each behind the entries that are there, and in the sections
that refer to functions or hold their bodies references and code are changed only
(`Section.Extended`). All other sections are kept, so that the sections are in order if they were
(`Module.strictlySorted_of_meter_eq_ok`).

The pass is six changes of a first section in turn. As none of them changes the kind of a section,
they are one change of the first section of each kind (`changeFirsts_changeFirsts`,
`MeterOptions.sections_metered`).
-/

set_option autoImplicit false

namespace WasmMeter

open MeterOptions

/-! ### The first section of each kind -/

/-- The sections with the empty one of a kind somewhere among them, if there is none of the kind. -/
inductive WithSection (empty : Section) : List Section → List Section → Prop
  | present {sections : List Section} (h : ∃ s ∈ sections, s.id = empty.id) :
      WithSection empty sections sections
  | inserted {before behind : List Section} (h : ∀ s ∈ before ++ behind, s.id ≠ empty.id) :
      WithSection empty (before ++ behind) (before ++ empty :: behind)

/-- Sections of which the first one of each kind is related to what stands in its place, where the
kinds that were seen before do not count. All others are kept. -/
inductive FirstsChanged (R : Section → Section → Prop) :
    (seen : List SectionId) → List Section → List Section → Prop
  | nil {seen : List SectionId} : FirstsChanged R seen [] []
  | first {seen : List SectionId} {s s' : Section} {later later' : List Section}
      (hnew : s.id ∉ seen) (h : R s s') (hlater : FirstsChanged R (s.id :: seen) later later') :
      FirstsChanged R seen (s :: later) (s' :: later')
  | kept {seen : List SectionId} {s : Section} {later later' : List Section}
      (hseen : s.id ∈ seen) (hlater : FirstsChanged R seen later later') :
      FirstsChanged R seen (s :: later) (s :: later')

/-- The sections with the first one of each kind changed, if the kind was not seen before. -/
def changeFirsts (change : Section → Section) :
    (seen : List SectionId) → List Section → List Section
  | _, [] => []
  | seen, s :: later =>
    if s.id ∈ seen then s :: changeFirsts change seen later
    else change s :: changeFirsts change (s.id :: seen) later

section Changes

variable {change : Section → Section}

theorem changeFirsts_cons_of_mem {seen : List SectionId} {s : Section} (h : s.id ∈ seen)
    (later : List Section) :
    changeFirsts change seen (s :: later) = s :: changeFirsts change seen later := if_pos h

theorem changeFirsts_cons_of_notMem {seen : List SectionId} {s : Section} (h : s.id ∉ seen)
    (later : List Section) :
    changeFirsts change seen (s :: later) = change s :: changeFirsts change (s.id :: seen) later :=
  if_neg h

/-- Sections of the kinds that were seen before are all that would change. -/
theorem changeFirsts_eq_self {seen : List SectionId} (h : ∀ s, s.id ∉ seen → change s = s)
    (sections : List Section) : changeFirsts change seen sections = sections := by
  induction sections generalizing seen with
  | nil => rfl
  | cons s later ih =>
    by_cases hs : s.id ∈ seen
    · rw [changeFirsts_cons_of_mem hs, ih h]
    · rw [changeFirsts_cons_of_notMem hs, h s hs,
        ih fun other hother ↦ h other (mt (List.mem_cons_of_mem s.id) hother)]

/-- Two changes in turn are one, if the first one changes no kind. -/
theorem changeFirsts_changeFirsts (hkind : ∀ s, (change s).id = s.id) (again : Section → Section)
    (seen : List SectionId) (sections : List Section) :
    changeFirsts again seen (changeFirsts change seen sections) =
      changeFirsts (fun s ↦ again (change s)) seen sections := by
  induction sections generalizing seen with
  | nil => rfl
  | cons s later ih =>
    by_cases hs : s.id ∈ seen
    · rw [changeFirsts_cons_of_mem hs, changeFirsts_cons_of_mem hs, changeFirsts_cons_of_mem hs, ih]
    · have hchanged : (change s).id ∉ seen := by rwa [hkind]
      rw [changeFirsts_cons_of_notMem hs, changeFirsts_cons_of_notMem hs,
        changeFirsts_cons_of_notMem hchanged, hkind, ih]

theorem map_id_changeFirsts (hkind : ∀ s, (change s).id = s.id) (seen : List SectionId)
    (sections : List Section) :
    (changeFirsts change seen sections).map Section.id = sections.map Section.id := by
  induction sections generalizing seen with
  | nil => rfl
  | cons s later ih =>
    by_cases hs : s.id ∈ seen
    · rw [changeFirsts_cons_of_mem hs, List.map_cons, List.map_cons, ih]
    · rw [changeFirsts_cons_of_notMem hs, List.map_cons, List.map_cons, hkind, ih]

/-- The change is a relation of the first section of each kind to what stands in its place. -/
theorem firstsChanged_changeFirsts {R : Section → Section → Prop} {seen : List SectionId}
    {sections : List Section}
    (h : ∀ s, s.id ∉ seen → sections.find? (fun a ↦ a.id == s.id) = some s → R s (change s)) :
    FirstsChanged R seen sections (changeFirsts change seen sections) := by
  induction sections generalizing seen with
  | nil => exact .nil
  | cons s later ih =>
    by_cases hs : s.id ∈ seen
    · rw [changeFirsts_cons_of_mem hs]
      refine .kept hs (ih fun other hother hfirst ↦ h other hother ?_)
      -- A section of another kind stands in front, so the first one is among the later ones.
      have hne : s.id ≠ other.id := fun heq ↦ hother (heq ▸ hs)
      rwa [List.find?_cons_of_neg (by simpa using hne)]
    · rw [changeFirsts_cons_of_notMem hs]
      refine .first hs (h s hs (List.find?_cons_of_pos (by simp))) (ih fun other hother hfirst ↦ ?_)
      rw [List.mem_cons, not_or] at hother
      refine h other hother.2 ?_
      rwa [List.find?_cons_of_neg (by simpa using Ne.symm hother.1)]

variable {β : Type} {id : SectionId} {query : Section → Option β} {f : β → Section}

/-- The change of the first section of one kind. -/
theorem ChangesKind.replaceFirst_eq_changeFirsts (h : ChangesKind id query f)
    {seen : List SectionId} (hid : id ∉ seen) (sections : List Section) :
    replaceFirst (fun s ↦ (query s).map f) sections =
      changeFirsts (fun s ↦ ((query s).map f).getD s) seen sections := by
  have hother (s : Section) (hs : s.id ≠ id) : query s = none :=
    Option.eq_none_iff_forall_ne_some.mpr fun b hb ↦ hs (h.before s b hb)
  induction sections generalizing seen with
  | nil => rfl
  | cons s later ih =>
    rw [replaceFirst]
    by_cases hs : s.id = id
    · obtain ⟨b, hb⟩ := Option.isSome_iff_exists.mp (h.all s hs)
      have hnew : s.id ∉ seen := by rwa [hs]
      have hlater (other : Section) (hmem : other.id ∉ s.id :: seen) :
          ((query other).map f).getD other = other := by
        have hne : other.id ≠ id := fun heq ↦ hmem (by rw [heq, hs]; exact List.mem_cons_self)
        rw [hother other hne]
        rfl
      rw [changeFirsts_cons_of_notMem hnew, changeFirsts_eq_self hlater, hb]
      rfl
    · have hnone := hother s hs
      by_cases hseen : s.id ∈ seen
      · rw [changeFirsts_cons_of_mem hseen, hnone, ← ih hid]
        rfl
      · have hrest : id ∉ s.id :: seen := by
          rw [List.mem_cons, not_or]
          exact ⟨Ne.symm hs, hid⟩
        rw [changeFirsts_cons_of_notMem hseen, hnone, ← ih hrest]
        rfl

/-- A change of the first section of each kind, and then one of the first section of one kind. -/
theorem ChangesKind.replaceFirst_changeFirsts (h : ChangesKind id query f)
    (hkind : ∀ s, (change s).id = s.id) (sections : List Section) :
    replaceFirst (fun s ↦ (query s).map f) (changeFirsts change [] sections) =
      changeFirsts (fun s ↦ ((query (change s)).map f).getD (change s)) [] sections := by
  rw [h.replaceFirst_eq_changeFirsts List.not_mem_nil, changeFirsts_changeFirsts hkind]

end Changes

/-! ### The sections of a metered module -/

/-- The first section of a kind before and after the pass. A type section and an import section get
one entry behind the others, and any other section is as the pass leaves it. -/
inductive Section.Extended (options : MeterOptions) (meterIndex typeIndex : UInt32)
    (metered : Module) : Section → Section → Prop
  | types {entries : List FuncType} (hindex : typeIndex.toNat = entries.length) :
      Extended options meterIndex typeIndex metered (.types entries)
        (.types (entries ++ [.func [options.meterType] none]))
  | imports {entries : List Import} :
      Extended options meterIndex typeIndex metered (.imports entries)
        (.imports (entries ++ [⟨options.importModule, options.importField, .function typeIndex⟩]))
  | other {s s' : Section} (h : Section.Metered options meterIndex metered s s') :
      Extended options meterIndex typeIndex metered s s'

namespace MeterOptions

/-- The section that the pass has for the first one of its kind, whatever the kind is. -/
def extendedSection (options : MeterOptions) (m : Module) : Section → Section
  | .types entries => .types (entries ++ [options.signature])
  | .imports entries => .imports (entries ++ [options.meterImport (withSections m)])
  | s => options.meteredSection m s

theorem id_extendedSection (options : MeterOptions) (m : Module) (s : Section) :
    (options.extendedSection m s).id = s.id := by
  cases s <;> rfl

/-- The changes of the pass in turn are one change of the first section of each kind. -/
theorem sections_metered (options : MeterOptions) (m : Module) :
    (options.metered m).sections =
      changeFirsts (options.extendedSection m) [] (withSections m).sections := by
  rw [sections_metered_eq_replaceFirst, sections_withImport,
    (changesKind_types _).replaceFirst_eq_changeFirsts List.not_mem_nil,
    (changesKind_imports _).replaceFirst_changeFirsts (fun s ↦ by cases s <;> rfl),
    (changesKind_exports _).replaceFirst_changeFirsts (fun s ↦ by cases s <;> rfl),
    (changesKind_elements _).replaceFirst_changeFirsts (fun s ↦ by cases s <;> rfl),
    (changesKind_start _).replaceFirst_changeFirsts (fun s ↦ by cases s <;> rfl),
    (changesKind_code fun _ ↦ _).replaceFirst_changeFirsts (fun s ↦ by cases s <;> rfl)]
  refine congrArg (changeFirsts · [] _) (funext fun s ↦ ?_)
  cases s <;> rfl

/-- The sections that the pass inserts are of the kinds that it extends. -/
theorem first?_withSections {s : Section} (h : s.isExtended = false) (m : Module) :
    (withSections m).first? s.id = m.first? s.id := by
  rw [Section.isExtended, Bool.or_eq_false_iff, beq_eq_false_iff_ne, beq_eq_false_iff_ne] at h
  unfold Module.first?
  rw [← List.findSome?_guard, ← List.findSome?_guard]
  refine findSome?_sections_withSections ?_ ?_ m
  · simpa [Section.id] using h.1.symm
  · simpa [Section.id] using h.2.symm

/-- What a metered module has in the place of the first section of a kind. -/
theorem extended_extendedSection {options : MeterOptions} {m metered : Module}
    (h : m.meter options = .ok metered) (htypes : (m.types?.getD []).length < UInt32.size)
    {s : Section} (hfirst : (withSections m).first? s.id = some s) :
    Section.Extended options (meterIndexOf m) (UInt32.ofNat (m.types?.getD []).length) metered s
      (options.extendedSection m s) := by
  cases s with
  | types entries =>
    have hentries : (withSections m).types? = some entries :=
      (changesKind_types id).findSome?_eq_some rfl hfirst
    rw [types?_withSections, Option.some_inj] at hentries
    rw [hentries] at htypes ⊢
    exact .types (UInt32.toNat_ofNat_of_lt' htypes)
  | imports entries =>
    have hentry : options.meterImport (withSections m) = ⟨options.importModule, options.importField,
        .function (UInt32.ofNat (m.types?.getD []).length)⟩ := by
      rw [meterImport, types?_withSections, Option.getD_some]
    rw [extendedSection, hentry]
    exact .imports
  | _ =>
    rw [first?_withSections rfl] at hfirst
    exact .other (metered_of_first? h rfl fun _ _ hid ↦ hid ▸ hfirst)

end MeterOptions

/-! ### Sections that are missing -/

namespace Module

theorem has_iff {m : Module} {id : SectionId} : m.has id = true ↔ ∃ s ∈ m.sections, s.id = id := by
  simp [has]

theorem has_eq_false_iff {m : Module} {id : SectionId} :
    m.has id = false ↔ ∀ s ∈ m.sections, s.id ≠ id := by
  simp [has]

theorem preamble_ensure (id : SectionId) (m : Module) : (m.ensure id).preamble = m.preamble := by
  rcases ensure_eq_self_or id m with ⟨hself, -⟩ | ⟨s, -, -, hinsert⟩
  · rw [hself]
  · rw [hinsert]
    rfl

theorem withSection_ensure (id : SectionId) {empty : Section} (h : Section.empty? id = some empty)
    (m : Module) : WithSection empty m.sections (m.ensure id).sections := by
  have hid := Section.id_of_empty? h
  rcases ensure_eq_self_or id m with ⟨hself, hnone | hhas⟩ | ⟨s, hs, hmissing, hinsert⟩
  · rw [h] at hnone
    cases hnone
  · rw [hself]
    exact .present (hid ▸ has_iff.mp hhas)
  · rw [h, Option.some_inj] at hs
    subst hs
    obtain ⟨before, behind, hsections, hinto⟩ := exists_insertInto_eq empty m.sections
    have hnone : ∀ s ∈ before ++ behind, s.id ≠ empty.id := by
      rw [hsections, hid]
      exact has_eq_false_iff.mp hmissing
    rw [hinsert, insert, hinto, ← hsections]
    exact .inserted hnone

theorem strictlySorted_ensure {id : SectionId} (hid : id ≠ .custom) {m : Module}
    (h : StrictlySorted m.sections) : StrictlySorted (m.ensure id).sections := by
  rcases ensure_eq_self_or id m with ⟨hself, -⟩ | ⟨s, hempty, hmissing, hinsert⟩
  · rwa [hself]
  · have hs := Section.id_of_empty? hempty
    have hnew : s.id ∉ kinds m.sections := by
      intro hmem
      obtain ⟨other, hother, heq⟩ := List.mem_map.mp hmem
      exact has_eq_false_iff.mp hmissing other (List.mem_filter.mp hother).1 (heq.trans hs)
    rw [hinsert]
    exact strictlySorted_insertInto (by rwa [hs]) hnew h

/-- The pass changes no kind, so the kinds are those of the module and of the sections that it
lacked. -/
theorem kinds_sections_metered (options : MeterOptions) (m : Module) :
    kinds (options.metered m).sections = kinds (withSections m).sections := by
  have hkinds (sections : List Section) :
      kinds sections = (sections.map Section.id).filter (· != .custom) := by
    rw [List.filter_map]
    rfl
  rw [hkinds, hkinds, sections_metered, map_id_changeFirsts (options.id_extendedSection m)]

/-! ### Metered modules -/

/-- A metered module keeps everything of the module but what has to do with metering. The import is
a function of which the signature stands behind those of the module, and it is itself behind the
imported functions. -/
structure Framed (options : MeterOptions) (m metered : Module) : Prop where
  preamble : metered.preamble = m.preamble
  sections : ∃ (meterIndex typeIndex : UInt32) (typed extended : List Section),
    meterIndex.toNat = m.importedFunctions ∧
      WithSection (.types []) m.sections typed ∧ WithSection (.imports []) typed extended ∧
        FirstsChanged (Section.Extended options meterIndex typeIndex metered) [] extended
          metered.sections

variable {m metered : Module} {options : MeterOptions}

theorem framed_of_meter_eq_ok (himports : (m.imports?.getD []).length < 2 ^ 32 - 1)
    (htypes : (m.types?.getD []).length < 2 ^ 32 - 1) (h : m.meter options = .ok metered) :
    Framed options m metered := by
  have hmetered := eq_metered_of_meter_eq_ok h
  have htyped : WithSection (.types []) m.sections (m.ensure .type).sections :=
    withSection_ensure .type rfl m
  have hextended : WithSection (.imports []) (m.ensure .type).sections (withSections m).sections :=
    withSection_ensure .import rfl (m.ensure .type)
  refine ⟨?_, meterIndexOf m, UInt32.ofNat (m.types?.getD []).length, _, _,
    toNat_meterIndexOf himports, htyped, hextended, ?_⟩
  · have hadded : (options.metered m).preamble = ((m.ensure .type).ensure .import).preamble := rfl
    rw [hmetered, hadded, preamble_ensure, preamble_ensure]
  · have hsections : metered.sections =
        changeFirsts (options.extendedSection m) [] (withSections m).sections := by
      rw [hmetered, sections_metered]
    rw [hsections]
    exact firstsChanged_changeFirsts fun s _ hfirst ↦
      extended_extendedSection h (lt_trans htypes (by decide)) hfirst

/-- Sections in order, with none repeated, stay so. -/
theorem strictlySorted_of_meter_eq_ok (h : m.meter options = .ok metered)
    (hsorted : StrictlySorted m.sections) : StrictlySorted metered.sections := by
  rw [eq_metered_of_meter_eq_ok h, StrictlySorted, kinds_sections_metered]
  exact strictlySorted_ensure (by decide) (strictlySorted_ensure (by decide) hsorted)

/-- The pass changes a module nowhere but in the first sections of the kinds that have to do with
metering, keeps the order of sections, and takes no notice of custom sections. -/
theorem meter_frame (m : Module) (options : MeterOptions)
    (himports : (m.imports?.getD []).length < 2 ^ 32 - 1)
    (htypes : (m.types?.getD []).length < 2 ^ 32 - 1) :
    (∀ metered, m.meter options = .ok metered →
      Framed options m metered ∧
        (StrictlySorted m.sections → StrictlySorted metered.sections)) ∧
      m.withoutCustom.meter options = (m.meter options).map withoutCustom :=
  ⟨fun _ h ↦ ⟨framed_of_meter_eq_ok himports htypes h, strictlySorted_of_meter_eq_ok h⟩,
    meter_withoutCustom options m⟩

/-- A module with custom sections among the others and without an import section. -/
def interleaved : Module :=
  ⟨.standard, [.custom "a" [], .types [.func [] none], .custom "b" [0x00], .functions [0],
    .exports [⟨"f", .function, 0⟩], .custom "a" [], .code [⟨[], [.call 0, ⟨"end", none, none⟩]⟩]]⟩

/-- What `Module.interleaved` becomes. -/
def interleavedMetered : Module :=
  ⟨.standard, [.custom "a" [], .types [.func [] none, .func [.i64] none], .custom "b" [0x00],
    .imports [⟨"metering", "usegas", .function 1⟩], .functions [0],
    .exports [⟨"f", .function, 1⟩], .custom "a" [],
    .code [⟨[], [.amount .i64 5, .call 0, .call 1, ⟨"end", none, none⟩]⟩]]⟩

theorem meter_frame_interleaved :
    (interleaved.imports?.getD []).length < 2 ^ 32 - 1 ∧
      (interleaved.types?.getD []).length < 2 ^ 32 - 1 ∧
      interleaved.meter .oneEach = .ok interleavedMetered ∧
      Framed .oneEach interleaved interleavedMetered ∧
      StrictlySorted interleaved.sections ∧ StrictlySorted interleavedMetered.sections ∧
      interleaved.withoutCustom.meter .oneEach = .ok interleavedMetered.withoutCustom := by
  have himports : (interleaved.imports?.getD []).length < 2 ^ 32 - 1 := by decide
  have htypes : (interleaved.types?.getD []).length < 2 ^ 32 - 1 := by decide
  have hmeter : interleaved.meter .oneEach = .ok interleavedMetered := by
    rw [meter_eq]
    decide +kernel
  have hsorted : StrictlySorted interleaved.sections := by decide
  obtain ⟨hmetered, hcustom⟩ := meter_frame interleaved .oneEach himports htypes
  obtain ⟨hframed, hsame⟩ := hmetered _ hmeter
  rw [hmeter] at hcustom
  exact ⟨himports, htypes, hmeter, hframed, hsorted, hsame hsorted, hcustom⟩

end Module

end WasmMeter
