import WasmMeter.Proofs.Gas.Coverage
import WasmMeter.Proofs.SectionOrder

/-!
# The pass takes no notice of custom sections

It does not matter whether the custom sections of a module are deleted before it is metered or
after: the metered module is the same, or the error (`Module.meter_withoutCustom`). What is asked
about the other kinds has the same answer without custom sections (`Module.findSome?_ordinary`), and
what is done to sections of the other kinds is done to the same sections
(`Module.withoutCustom_ensure`, `ChangesKind.withoutCustom_updateFirst`), so every stage of the pass
commutes with the deletion.
-/

set_option autoImplicit false

namespace WasmMeter

open MeterOptions

namespace Module

/-- The module without its custom sections. -/
def withoutCustom (m : Module) : Module := { m with sections := ordinary m.sections }

/-! ### Questions -/

/-- What is asked about sections that are not custom. -/
theorem findSome?_ordinary {β : Type} {query : Section → Option β}
    (h : ∀ name payload, query (.custom name payload) = none) (sections : List Section) :
    (ordinary sections).findSome? query = sections.findSome? query := by
  induction sections with
  | nil => rfl
  | cons a later ih =>
    by_cases ha : a.id = .custom
    · have hnone : query a = none := by
        cases a <;> cases ha
        exact h _ _
      rw [ordinary_cons_of_custom ha, ih, List.findSome?_cons, hnone]
    · rw [ordinary_cons_of_ne ha, List.findSome?_cons, List.findSome?_cons, ih]

section Questions

variable (m : Module)

@[simp]
theorem types?_withoutCustom : m.withoutCustom.types? = m.types? :=
  findSome?_ordinary (fun _ _ ↦ rfl) m.sections

@[simp]
theorem imports?_withoutCustom : m.withoutCustom.imports? = m.imports? :=
  findSome?_ordinary (fun _ _ ↦ rfl) m.sections

@[simp]
theorem functions?_withoutCustom : m.withoutCustom.functions? = m.functions? :=
  findSome?_ordinary (fun _ _ ↦ rfl) m.sections

@[simp]
theorem exports?_withoutCustom : m.withoutCustom.exports? = m.exports? :=
  findSome?_ordinary (fun _ _ ↦ rfl) m.sections

@[simp]
theorem start?_withoutCustom : m.withoutCustom.start? = m.start? :=
  findSome?_ordinary (fun _ _ ↦ rfl) m.sections

@[simp]
theorem elements?_withoutCustom : m.withoutCustom.elements? = m.elements? :=
  findSome?_ordinary (fun _ _ ↦ rfl) m.sections

@[simp]
theorem code?_withoutCustom : m.withoutCustom.code? = m.code? :=
  findSome?_ordinary (fun _ _ ↦ rfl) m.sections

end Questions

theorem has_withoutCustom {id : SectionId} (hid : id ≠ .custom) (m : Module) :
    m.withoutCustom.has id = m.has id := by
  have hboth (s : Section) : (s.id != .custom && s.id == id) = (s.id == id) := by
    by_cases hs : s.id = id
    · simp [hs, hid]
    · simp [hs]
  rw [has, withoutCustom, ordinary, List.any_filter]
  exact congrArg m.sections.any (funext hboth)

/-! ### Changes -/

/-- A section is missing, and inserted, whether there are custom sections or not. -/
theorem withoutCustom_ensure {id : SectionId} (hid : id ≠ .custom) (m : Module) :
    (m.ensure id).withoutCustom = m.withoutCustom.ensure id := by
  unfold ensure
  rw [has_withoutCustom hid]
  split
  · rfl
  · cases hempty : Section.empty? id with
    | none => rfl
    | some s =>
      have hs : s.id ≠ .custom := by rwa [Section.id_of_empty? hempty]
      exact congrArg (Module.mk m.preamble) (ordinary_insertInto hs m.sections)

end Module

/-- The first section of a kind is the same one without custom sections. -/
theorem ChangesKind.withoutCustom_updateFirst {β : Type} {id : SectionId}
    {query : Section → Option β} {f : β → Section} (h : ChangesKind id query f)
    (hid : id ≠ .custom) (m : Module) :
    (m.updateFirst fun s ↦ (query s).map f).withoutCustom =
      m.withoutCustom.updateFirst fun s ↦ (query s).map f := by
  have hordinary (s : Section) (hs : s.id = id) : (s.id != .custom) = true := by simp [hs, hid]
  exact congrArg (Module.mk m.preamble) (h.filter hordinary m.sections)

/-! ### The pass -/

section Pass

variable (options : MeterOptions) (m : Module)

theorem Module.withoutCustom_shifted (meterIndex : UInt32) :
    (m.shifted meterIndex).withoutCustom = m.withoutCustom.shifted meterIndex := by
  unfold shifted shiftedStart shiftedElements shiftedExports
  rw [(changesKind_start _).withoutCustom_updateFirst (by decide),
    (changesKind_elements _).withoutCustom_updateFirst (by decide),
    (changesKind_exports _).withoutCustom_updateFirst (by decide)]

namespace MeterOptions

theorem withSections_withoutCustom :
    withSections m.withoutCustom = (withSections m).withoutCustom := by
  rw [withSections, withSections, Module.withoutCustom_ensure (by decide),
    Module.withoutCustom_ensure (by decide)]

theorem withImport_withoutCustom :
    options.withImport m.withoutCustom = (options.withImport m).withoutCustom := by
  have himport : options.meterImport m.withoutCustom = options.meterImport m := by
    simp [meterImport]
  unfold withImport
  rw [himport]
  unfold Module.addImport Module.addType
  rw [(changesKind_imports _).withoutCustom_updateFirst (by decide),
    (changesKind_types _).withoutCustom_updateFirst (by decide)]

theorem meterIndexOf_withoutCustom : meterIndexOf m.withoutCustom = meterIndexOf m := by
  simp [meterIndexOf, withSections_withoutCustom, Module.importedFunctions]

theorem prepared_withoutCustom :
    options.prepared m.withoutCustom = (options.prepared m).withoutCustom := by
  rw [prepared, withSections_withoutCustom, withImport_withoutCustom, meterIndexOf_withoutCustom,
    ← Module.withoutCustom_shifted, prepared]

theorem signatureOf?_withoutCustom : signatureOf? m.withoutCustom = signatureOf? m := by
  unfold signatureOf?
  simp

theorem costedBodies_withoutCustom :
    options.costedBodies m.withoutCustom = options.costedBodies m := by
  unfold costedBodies startCost
  simp [signatureOf?_withoutCustom]

theorem metered_withoutCustom :
    options.metered m.withoutCustom = (options.metered m).withoutCustom := by
  unfold metered
  rw [(changesKind_code _).withoutCustom_updateFirst (by decide), prepared_withoutCustom,
    costedBodies_withoutCustom, meterIndexOf_withoutCustom]

theorem meterError?_withoutCustom :
    options.meterError? m.withoutCustom = options.meterError? m := by
  unfold meterError? importError? signatureError?
  simp [prepared_withoutCustom, withSections_withoutCustom, withImport_withoutCustom,
    meterIndexOf_withoutCustom, costedBodies_withoutCustom, signatureOf?_withoutCustom,
    Module.importsField, Module.shiftError?]

end MeterOptions

/-- Custom sections are deleted before the pass or after it, with the same result or the same
error. -/
theorem Module.meter_withoutCustom :
    m.withoutCustom.meter options = (m.meter options).map withoutCustom := by
  rw [meter_eq, meter_eq, outcome_map, meterError?_withoutCustom, metered_withoutCustom]

end Pass

end WasmMeter
