import WasmMeter.Proofs.Binary.SectionDecoding
import WasmMeter.Proofs.Gas.Correspondence

/-!
# Coverage of the pass

The pass goes to the first section of a kind. Where no two sections import functions, refer to them,
or hold their bodies in the same way (`Single`), this is all of them: the references of exports,
element segments, start function and code are moved past all imported functions, and every body is
behind its charges.

The decoder admits modules that repeat such a section. The code of a second code section stays as it
is, without charges and with its calls where they were, and the instructions that initialize globals
and segments always stay as they are.
-/

set_option autoImplicit false

namespace WasmMeter

open Instruction MeterOptions

/-! ### Single sections -/

/-- Of each of the kinds there is one section at most. -/
def Single (ids : List SectionId) (sections : List Section) : Prop :=
  sections.Pairwise fun s s' ↦ s.id = s'.id → s.id ∉ ids

instance (ids : List SectionId) (sections : List Section) : Decidable (Single ids sections) :=
  inferInstanceAs (Decidable (sections.Pairwise _))

/-- The kinds of sections that import functions, refer to them, or hold their bodies. -/
def SectionId.ofFunctions : List SectionId := [.import, .export, .start, .element, .code]

/-- Whether a section is of a kind to which the pass adds an entry, or the section itself. -/
def Section.isExtended (s : Section) : Bool := s.id == .type || s.id == .import

theorem Section.not_isExtended_of_id {s : Section} {id : SectionId} (h : s.id = id) :
    (!s.isExtended) = !(id == .type || id == .import) := by
  rw [isExtended, h]

/-- A change of the sections of one kind, which are still of this kind when they are changed. -/
structure ChangesKind {β : Type} (id : SectionId) (query : Section → Option β) (f : β → Section) :
    Prop where
  before : ∀ s b, query s = some b → s.id = id
  all : ∀ s, s.id = id → (query s).isSome
  after : ∀ b, (f b).id = id

section Changes

variable {β : Type} {ids : List SectionId} {sections : List Section} {id : SectionId}
  {query : Section → Option β} {f : β → Section}

/-- A question about one of the kinds has one answer at most. -/
theorem Single.pairwise (h : Single ids sections) (hid : id ∈ ids)
    (hquery : ∀ s b, query s = some b → s.id = id) :
    sections.Pairwise fun s s' ↦ query s = none ∨ query s' = none := by
  refine h.imp fun {s s'} hss ↦ ?_
  cases hs : query s with
  | none => exact .inl rfl
  | some b =>
    cases hs' : query s' with
    | none => exact .inr rfl
    | some b' =>
      have hfirst := hquery s b hs
      exact absurd (hfirst ▸ hid) (hss (hfirst.trans (hquery s' b' hs').symm))

/-- A single section is the first one of its kind. -/
theorem Single.find?_eq_some (h : Single ids sections) {s : Section} (hmem : s ∈ sections)
    (hid : s.id ∈ ids) : sections.find? (fun a ↦ a.id == s.id) = some s := by
  have hself : Option.guard (fun a : Section ↦ a.id == s.id) s = some s := by simp
  rw [← List.findSome?_guard]
  refine findSome?_eq_some_of_mem (h.pairwise hid fun a b hguard ↦ ?_) hmem hself
  rw [Option.guard_eq_some_iff] at hguard
  exact beq_iff_eq.mp hguard.2

namespace ChangesKind

/-- A single section is changed wherever it stands. -/
theorem replaceFirst_eq_map (h : ChangesKind id query f) (hid : id ∈ ids)
    (hsingle : Single ids sections) : replaceFirst (fun s ↦ (query s).map f) sections =
      sections.map fun s ↦ ((query s).map f).getD s :=
  WasmMeter.replaceFirst_eq_map ((hsingle.pairwise hid h.before).imp fun hss ↦
    hss.imp (congrArg (Option.map f)) (congrArg (Option.map f)))

/-- What is asked about a kind of section is answered by the first one of it. -/
theorem findSome?_eq_some (h : ChangesKind id query f) {s : Section} {b : β}
    (hs : query s = some b) (hfirst : sections.find? (fun a ↦ a.id == id) = some s) :
    sections.findSome? query = some b := by
  induction sections with
  | nil => cases hfirst
  | cons a later ih =>
    rw [List.find?_cons] at hfirst
    rw [List.findSome?_cons]
    split at hfirst
    · cases hfirst
      rw [hs]
    · next hother =>
      have hnone : query a = none :=
        Option.eq_none_iff_forall_ne_some.mpr fun b hb ↦
          beq_eq_false_iff_ne.mp hother (h.before a b hb)
      rw [hnone]
      exact ih hfirst

/-- No kind is repeated that was not. -/
theorem single_map (h : ChangesKind id query f) (hsingle : Single ids sections) :
    Single ids (sections.map fun s ↦ ((query s).map f).getD s) := by
  have hkept (s : Section) : (((query s).map f).getD s).id = s.id := by
    cases hs : query s with
    | none => rfl
    | some b => exact (h.after b).trans (h.before s b hs).symm
  refine List.pairwise_map.mpr (hsingle.imp fun {s s'} hss ↦ ?_)
  rw [hkept, hkept]
  exact hss

/-- The change takes place among sections of which the kind is one. -/
theorem filter (h : ChangesKind id query f) {p : Section → Bool} (hp : ∀ s, s.id = id → p s = true)
    (sections : List Section) : (replaceFirst (fun s ↦ (query s).map f) sections).filter p =
      replaceFirst (fun s ↦ (query s).map f) (sections.filter p) := by
  refine filter_replaceFirst (fun s s' hs ↦ ?_) sections
  obtain ⟨b, hb, rfl⟩ := Option.map_eq_some_iff.mp hs
  exact ⟨hp s (h.before s b hb), hp (f b) (h.after b)⟩

/-- The change takes place elsewhere. -/
theorem filter_of_not (h : ChangesKind id query f) {p : Section → Bool}
    (hp : ∀ s, s.id = id → p s = false) (sections : List Section) :
    (replaceFirst (fun s ↦ (query s).map f) sections).filter p = sections.filter p := by
  refine filter_replaceFirst_of_not (fun s s' hs ↦ ?_) sections
  obtain ⟨b, hb, rfl⟩ := Option.map_eq_some_iff.mp hs
  exact ⟨hp s (h.before s b hb), hp (f b) (h.after b)⟩

end ChangesKind

end Changes

theorem changesKind_types (f : List FuncType → List FuncType) :
    ChangesKind .type Section.types? fun entries ↦ .types (f entries) :=
  ⟨fun s _ hs ↦ by cases s <;> cases hs; rfl, fun s hs ↦ by cases s <;> cases hs; rfl, fun _ ↦ rfl⟩

theorem changesKind_imports (f : List Import → List Import) :
    ChangesKind .import Section.imports? fun entries ↦ .imports (f entries) :=
  ⟨fun s _ hs ↦ by cases s <;> cases hs; rfl, fun s hs ↦ by cases s <;> cases hs; rfl, fun _ ↦ rfl⟩

theorem changesKind_exports (f : List Export → List Export) :
    ChangesKind .export Section.exports? fun entries ↦ .exports (f entries) :=
  ⟨fun s _ hs ↦ by cases s <;> cases hs; rfl, fun s hs ↦ by cases s <;> cases hs; rfl, fun _ ↦ rfl⟩

theorem changesKind_start (f : UInt32 → UInt32) :
    ChangesKind .start Section.start? fun index ↦ .start (f index) :=
  ⟨fun s _ hs ↦ by cases s <;> cases hs; rfl, fun s hs ↦ by cases s <;> cases hs; rfl, fun _ ↦ rfl⟩

theorem changesKind_elements (f : List ElementSegment → List ElementSegment) :
    ChangesKind .element Section.elements? fun segments ↦ .elements (f segments) :=
  ⟨fun s _ hs ↦ by cases s <;> cases hs; rfl, fun s hs ↦ by cases s <;> cases hs; rfl, fun _ ↦ rfl⟩

theorem changesKind_code (f : List FunctionBody → List FunctionBody) :
    ChangesKind .code Section.code? fun bodies ↦ .code (f bodies) :=
  ⟨fun s _ hs ↦ by cases s <;> cases hs; rfl, fun s hs ↦ by cases s <;> cases hs; rfl, fun _ ↦ rfl⟩

/-! ### What becomes of the sections -/

/-- A section before and after the pass. References are moved past the imported functions, bodies
are metered and their calls moved likewise, and a section without functions is kept. -/
inductive Section.Metered (options : MeterOptions) (meterIndex : UInt32) (metered : Module) :
    Section → Section → Prop
  | exports {entries entries' : List Export}
      (h : List.Forall₂ (Export.Corresponds (MovedPast meterIndex.toNat)) entries entries') :
      Metered options meterIndex metered (.exports entries) (.exports entries')
  | start {index index' : UInt32} (h : MovedPast meterIndex.toNat index index') :
      Metered options meterIndex metered (.start index) (.start index')
  | elements {segments segments' : List ElementSegment}
      (h : List.Forall₂ (ElementSegment.Corresponds (MovedPast meterIndex.toNat)) segments
        segments') :
      Metered options meterIndex metered (.elements segments) (.elements segments')
  | code {bodies bodies' : List FunctionBody}
      (hcharges : ∀ position : Nat, Option.Rel
        (FunctionBody.MeteredAt options meterIndex metered position) bodies[position]?
          bodies'[position]?)
      (hcalls : List.Forall₂ (fun body body' ↦
        List.Forall₂ (Instruction.Corresponds (MovedPast meterIndex.toNat)) body.code
          (withoutCharges meterIndex body'.code)) bodies bodies') :
      Metered options meterIndex metered (.code bodies) (.code bodies')
  | kept {s : Section} (h : s.id ∈ [.custom, .function, .table, .memory, .global, .data]) :
      Metered options meterIndex metered s s

namespace MeterOptions

/-- The section that the pass has for the first one of its kind. -/
def meteredSection (options : MeterOptions) (m : Module) : Section → Section
  | .exports entries => .exports (entries.map (Export.shifted (meterIndexOf m)))
  | .start index => .start (shifted (meterIndexOf m) index)
  | .elements segments => .elements (segments.map (ElementSegment.shifted (meterIndexOf m)))
  | .code _ => .code (options.meteredBodies m)
  | s => s

theorem filter_sections_ensure {id : SectionId} {p : Section → Bool}
    (h : ∀ s ∈ Section.empty? id, p s = false) (m : Module) :
    (m.ensure id).sections.filter p = m.sections.filter p := by
  rcases ensure_eq_self_or id m with ⟨hself, -⟩ | ⟨s, hempty, -, hinsert⟩
  · rw [hself]
  · rw [hinsert]
    exact Module.filter_insertInto_of_not (h s hempty) m.sections

theorem sections_withImport (options : MeterOptions) (m : Module) :
    (options.withImport m).sections =
      replaceFirst (fun s ↦ s.imports?.map fun entries ↦
          .imports (entries ++ [options.meterImport m]))
        (replaceFirst (fun s ↦ s.types?.map fun entries ↦ .types (entries ++ [options.signature]))
          m.sections) := rfl

/-- The changes of the pass behind the import. -/
theorem sections_metered_eq_replaceFirst (options : MeterOptions) (m : Module) :
    (options.metered m).sections =
      replaceFirst (fun s ↦ s.code?.map fun _ ↦ .code (options.meteredBodies m))
        (replaceFirst (fun s ↦ s.start?.map fun index ↦ .start (shifted (meterIndexOf m) index))
          (replaceFirst (fun s ↦ s.elements?.map fun segments ↦
              .elements (segments.map (ElementSegment.shifted (meterIndexOf m))))
            (replaceFirst (fun s ↦ s.exports?.map fun entries ↦
                .exports (entries.map (Export.shifted (meterIndexOf m))))
              (options.withImport (withSections m)).sections))) := rfl

/-- The import of the metering function leaves the other sections as they are. -/
theorem filter_sections_withImport (options : MeterOptions) (m : Module) :
    (options.withImport (withSections m)).sections.filter (!·.isExtended) =
      m.sections.filter (!·.isExtended) := by
  rw [sections_withImport,
    (changesKind_imports _).filter_of_not (fun _ ↦ Section.not_isExtended_of_id),
    (changesKind_types _).filter_of_not (fun _ ↦ Section.not_isExtended_of_id), withSections,
    filter_sections_ensure (by rintro s ⟨⟩; rfl), filter_sections_ensure (by rintro s ⟨⟩; rfl)]

/-- Of each kind that is not extended, the first section is changed. -/
theorem filter_sections_metered (options : MeterOptions) (m : Module) :
    (options.metered m).sections.filter (!·.isExtended) =
      replaceFirst (fun s ↦ s.code?.map fun _ ↦ .code (options.meteredBodies m))
        (replaceFirst (fun s ↦ s.start?.map fun index ↦ .start (shifted (meterIndexOf m) index))
          (replaceFirst (fun s ↦ s.elements?.map fun segments ↦
              .elements (segments.map (ElementSegment.shifted (meterIndexOf m))))
            (replaceFirst (fun s ↦ s.exports?.map fun entries ↦
                .exports (entries.map (Export.shifted (meterIndexOf m))))
              (m.sections.filter (!·.isExtended))))) := by
  rw [sections_metered_eq_replaceFirst,
    (changesKind_code fun _ ↦ _).filter (fun _ ↦ Section.not_isExtended_of_id),
    (changesKind_start _).filter (fun _ ↦ Section.not_isExtended_of_id),
    (changesKind_elements _).filter (fun _ ↦ Section.not_isExtended_of_id),
    (changesKind_exports _).filter (fun _ ↦ Section.not_isExtended_of_id),
    filter_sections_withImport]

/-- Where no kind is repeated, all sections are changed. -/
theorem filter_sections_metered_of_single {options : MeterOptions} {m : Module}
    (h : Single SectionId.ofFunctions m.sections) :
    (options.metered m).sections.filter (!·.isExtended) =
      (m.sections.filter (!·.isExtended)).map (options.meteredSection m) := by
  have hfilter : Single SectionId.ofFunctions (m.sections.filter (!·.isExtended)) :=
    List.Pairwise.filter _ h
  have hexports := (changesKind_exports (List.map (Export.shifted (meterIndexOf m)))).single_map
    hfilter
  have helements := (changesKind_elements
    (List.map (ElementSegment.shifted (meterIndexOf m)))).single_map hexports
  have hstart := (changesKind_start (shifted (meterIndexOf m))).single_map helements
  rw [filter_sections_metered, (changesKind_exports _).replaceFirst_eq_map (by decide) hfilter,
    (changesKind_elements _).replaceFirst_eq_map (by decide) hexports,
    (changesKind_start _).replaceFirst_eq_map (by decide) helements,
    (changesKind_code fun _ ↦ _).replaceFirst_eq_map (by decide) hstart, List.map_map, List.map_map,
    List.map_map]
  refine List.map_congr_left fun s _ ↦ ?_
  cases s <;> rfl

/-- What a module has in the place of the first section of a kind. -/
theorem metered_of_first? {options : MeterOptions} {m m' : Module} (h : m.meter options = .ok m')
    {s : Section} (hkind : s.isExtended = false)
    (hfirst : ∀ id ∈ SectionId.ofFunctions, s.id = id → m.first? id = some s) :
    Section.Metered options (meterIndexOf m) m' s (options.meteredSection m s) := by
  have hR := relatesShifted_movedPast (meterIndexOf m)
  cases s with
  | exports entries =>
    have hentries : m.exports? = some entries :=
      (changesKind_exports id).findSome?_eq_some rfl (hfirst .export (by decide) rfl)
    exact .exports (forall₂_map fun entry hentry ↦
      Export.corresponds_shifted hR (shiftError?_of_exports h hentries hentry))
  | start index =>
    have hindex : m.start? = some index :=
      (changesKind_start id).findSome?_eq_some rfl (hfirst .start (by decide) rfl)
    exact .start (hR index (shiftError?_of_start h hindex))
  | elements segments =>
    have hsegments : m.elements? = some segments :=
      (changesKind_elements id).findSome?_eq_some rfl (hfirst .element (by decide) rfl)
    exact .elements (forall₂_map fun segment hsegment ↦
      ElementSegment.corresponds_shifted hR (shiftError?_of_elements h hsegments hsegment))
  | code bodies =>
    have hbodies : m.code? = some bodies :=
      (changesKind_code id).findSome?_eq_some rfl (hfirst .code (by decide) rfl)
    have hcode := code_meteredAt h
    rw [eq_metered_of_meter_eq_ok h, code?_metered_eq_map_const, hbodies] at hcode
    obtain ⟨hcharges⟩ := hcode
    rw [eq_metered_of_meter_eq_ok h]
    exact .code hcharges (forall₂_of_getElem? (fun _ _ _ hbody ↦ hbody.corresponds hR) hcharges)
  | types _ => cases hkind
  | imports _ => cases hkind
  | _ => exact .kept (by simp [Section.id])

/-- What a module has in the place of a section, if no kind is repeated. -/
theorem metered_meteredSection {options : MeterOptions} {m m' : Module}
    (hsingle : Single SectionId.ofFunctions m.sections) (h : m.meter options = .ok m')
    {s : Section} (hmem : s ∈ m.sections) (hkind : s.isExtended = false) :
    Section.Metered options (meterIndexOf m) m' s (options.meteredSection m s) :=
  metered_of_first? h hkind fun _ hid hs ↦ by
    subst hs
    exact hsingle.find?_eq_some hmem hid

end MeterOptions

/-! ### Metered modules -/

namespace Module

/-- The number of imported functions of all import sections. -/
def totalImportedFunctions (m : Module) : Nat :=
  (m.sections.flatMap fun s ↦ s.imports?.getD []).countP Import.isFunction

theorem totalImportedFunctions_eq {m : Module} (h : Single SectionId.ofFunctions m.sections) :
    m.totalImportedFunctions = m.importedFunctions := by
  rw [totalImportedFunctions,
    flatMap_getD_eq (h.pairwise (by decide) (changesKind_imports id).before)]
  rfl

/-- The imports of a module that was decoded have been counted. -/
theorem importedFunctions_lt_of_decode_eq_ok {bytes : Bytes} {m : Module}
    (h : Module.decode bytes = .ok m) : m.importedFunctions < UInt32.size := by
  cases himports : m.imports? with
  | none =>
    rw [importedFunctions, himports]
    decide
  | some entries =>
    obtain ⟨s, hs, hentries⟩ := List.exists_of_findSome?_eq_some himports
    obtain ⟨payload, hpayload⟩ := exists_mem_contentForms_of_decode_eq_ok h s hs
    have hcount : entries.length < UInt32.size := by
      cases s <;> cases hentries
      obtain ⟨_, hform, -⟩ := Language.mem_mul.mp hpayload
      exact hform.2.2.2
    rw [importedFunctions, himports, Option.getD_some]
    exact lt_of_le_of_lt List.countP_le_length hcount

/-- The pass covers a module that was decoded and repeats no section that has to do with
functions. -/
theorem covered_of_decode_eq_ok {bytes : Bytes} {m m' : Module} {options : MeterOptions}
    (hdecode : Module.decode bytes = .ok m) (hsingle : Single SectionId.ofFunctions m.sections)
    (h : m.meter options = .ok m') :
    ∃ meterIndex : UInt32, meterIndex.toNat = m.totalImportedFunctions ∧
      List.Forall₂ (Section.Metered options meterIndex m') (m.sections.filter (!·.isExtended))
        (m'.sections.filter (!·.isExtended)) := by
  refine ⟨meterIndexOf m, ?_, ?_⟩
  · rw [totalImportedFunctions_eq hsingle]
    exact toNat_meterIndexOf_of_lt (importedFunctions_lt_of_decode_eq_ok hdecode)
  · rw [eq_metered_of_meter_eq_ok h, filter_sections_metered_of_single hsingle,
      ← eq_metered_of_meter_eq_ok h]
    refine forall₂_map fun s hs ↦ ?_
    obtain ⟨hmem, hkind⟩ := List.mem_filter.mp hs
    exact metered_meteredSection hsingle h hmem (Bool.not_eq_true' _ |>.mp hkind)

/-- The bytes of `Module.referring`. -/
def referringBytes : Bytes :=
  [0x00, 0x61, 0x73, 0x6d, 0x01, 0x00, 0x00, 0x00, 0x01, 0x04, 0x01, 0x60, 0x00, 0x00, 0x02, 0x17,
    0x02, 0x03, 0x65, 0x6e, 0x76, 0x06, 0x6d, 0x65, 0x6d, 0x6f, 0x72, 0x79, 0x02, 0x00, 0x01, 0x03,
    0x65, 0x6e, 0x76, 0x01, 0x66, 0x00, 0x00, 0x03, 0x02, 0x01, 0x00, 0x07, 0x16, 0x04, 0x01, 0x66,
    0x00, 0x00, 0x01, 0x67, 0x00, 0x01, 0x01, 0x68, 0x00, 0x07, 0x06, 0x6d, 0x65, 0x6d, 0x6f, 0x72,
    0x79, 0x02, 0x01, 0x08, 0x01, 0x01, 0x09, 0x08, 0x01, 0x00, 0x41, 0x00, 0x0b, 0x02, 0x01, 0x00,
    0x0a, 0x08, 0x01, 0x06, 0x00, 0x10, 0x00, 0x10, 0x01, 0x0b]

theorem covered_referring :
    Module.decode referringBytes = .ok referring ∧
      Single SectionId.ofFunctions referring.sections ∧
      referring.meter .oneEach = .ok referringMetered ∧
      ∃ meterIndex : UInt32, meterIndex.toNat = referring.totalImportedFunctions ∧
        List.Forall₂ (Section.Metered .oneEach meterIndex referringMetered)
          (referring.sections.filter (!·.isExtended))
          (referringMetered.sections.filter (!·.isExtended)) := by
  have hdecode : Module.decode referringBytes = .ok referring := by decide +kernel
  have hsingle : Single SectionId.ofFunctions referring.sections := by decide +kernel
  exact ⟨hdecode, hsingle, meter_referring, covered_of_decode_eq_ok hdecode hsingle meter_referring⟩

/-- The bytes of a module with two code sections. -/
def codingTwiceBytes : Bytes :=
  [0x00, 0x61, 0x73, 0x6d, 0x01, 0x00, 0x00, 0x00, 0x01, 0x04, 0x01, 0x60, 0x00, 0x00, 0x03, 0x03,
    0x02, 0x00, 0x00, 0x0a, 0x04, 0x01, 0x02, 0x00, 0x0b, 0x0a, 0x06, 0x01, 0x04, 0x00, 0x10, 0x00,
    0x0b]

/-- The body in the second code section calls the function of the first one. -/
def codingTwice : Module :=
  ⟨.standard, [.types [.func [] none], .functions [0, 0], .code [⟨[], [⟨"end", none, none⟩]⟩],
    .code [⟨[], [.call 0, ⟨"end", none, none⟩]⟩]]⟩

/-- A body is not metered, and its call of a function of the module calls the metering function
without a charge. -/
theorem escapes_meter :
    Module.decode codingTwiceBytes = .ok codingTwice ∧ codingTwice.totalImportedFunctions = 0 ∧
      ∃ metered, codingTwice.meter .oneEach = .ok metered ∧
        metered.imports? = some [⟨"metering", "usegas", .function 1⟩] ∧
        .code [⟨[], [.call 0, ⟨"end", none, none⟩]⟩] ∈ metered.sections := by
  refine ⟨by decide +kernel, by decide, MeterOptions.oneEach.metered codingTwice, ?_, ?_, ?_⟩
  · rw [meter_eq]
    decide +kernel
  · decide +kernel
  · decide +kernel

end Module

end WasmMeter
