import WasmMeter.Proofs.Gas.FirstCause
import WasmMeter.Proofs.Gas.FunctionSpace
import WasmMeter.Proofs.Pipeline

/-!
# Metered modules are not metered again

A metered module has the import of the metering function in its first import section
(`Module.imports_of_meter_eq_ok`), which is where the pass looks for it before it looks at anything
else (`Module.meter_of_imports`). The same holds once the module has been written and read again
(`Module.exists_of_meterBytes_eq_ok`), so a second pass that imports the same field of the same
module is refused, whatever else its options are.
-/

set_option autoImplicit false

namespace WasmMeter

open MeterOptions

namespace Module

variable {m metered : Module} {options : MeterOptions}

/-- A module that has the import already is refused, whatever else is wrong with it. -/
theorem meter_of_imports (h : m.Imports options.importModule options.importField) :
    m.meter options = .error (.duplicateImport options.importModule options.importField) := by
  rw [meter_eq, outcome_eq_error_iff, meterError?, (options.raises_importError? m).eq_some h,
    Option.some_or]

theorem imports_of_meter_eq_ok (h : m.meter options = .ok metered) :
    metered.Imports options.importModule options.importField := by
  refine ⟨options.meterImport (withSections m), ?_, rfl, rfl⟩
  rw [imports?_of_meter_eq_ok h]
  exact List.mem_append_right _ List.mem_cons_self

/-- What is written is written of a metered module, and read as this module. -/
theorem exists_of_meterBytes_eq_ok {bytes written : Bytes}
    (h : meterBytes bytes options = .ok written) :
    ∃ m metered, Module.decode bytes = .ok m ∧ m.meter options = .ok metered ∧
      ((∀ s ∈ metered.sections, s.HasShortPayload) → Module.decode written = .ok metered) := by
  cases hdecode : Module.decode bytes with
  | error error =>
    rw [meterBytes, hdecode] at h
    cases h
  | ok m =>
    cases hmeter : m.meter options with
    | error error =>
      rw [meterBytes_of_decode_eq_ok options hdecode, hmeter] at h
      cases h
    | ok metered =>
      obtain ⟨word, hword, hread⟩ := exists_meterBytes_eq_ok hdecode hmeter
      rw [h] at hword
      cases hword
      exact ⟨m, metered, rfl, hmeter, hread⟩

/-- A module that was metered cannot be metered with an import of the same names, and neither can
the bytes that are written of it. The cost table and the type of the meter may be others than
before. -/
theorem meter_again {options again : MeterOptions}
    (hmodule : again.importModule = options.importModule)
    (hfield : again.importField = options.importField) :
    (∀ m metered : Module, m.meter options = .ok metered →
      metered.meter again = .error (.duplicateImport options.importModule options.importField)) ∧
    ∀ bytes written : Bytes, meterBytes bytes options = .ok written →
      ∃ m metered : Module, Module.decode bytes = .ok m ∧ m.meter options = .ok metered ∧
        ((∀ s ∈ metered.sections, s.HasShortPayload) →
          meterBytes written again =
            .error (.metering (.duplicateImport options.importModule options.importField))) := by
  have hagain (m metered : Module) (h : m.meter options = .ok metered) :
      metered.meter again =
        .error (.duplicateImport options.importModule options.importField) := by
    have himports := imports_of_meter_eq_ok h
    rw [← hmodule, ← hfield] at himports ⊢
    exact meter_of_imports himports
  refine ⟨hagain, fun bytes written hwritten ↦ ?_⟩
  obtain ⟨m, metered, hdecode, hmeter, hread⟩ := exists_of_meterBytes_eq_ok hwritten
  refine ⟨m, metered, hdecode, hmeter, fun hshort ↦ ?_⟩
  rw [meterBytes_of_decode_eq_ok again (hread hshort), hagain m metered hmeter]
  rfl

theorem meter_again_recursing :
    MeterOptions.standard.importModule = MeterOptions.oneEach.importModule ∧
      MeterOptions.standard.importField = MeterOptions.oneEach.importField ∧
      recursing.meter { MeterOptions.oneEach with meterType := .f64 } = .ok recursingMetered ∧
      recursingMetered.meter .standard = .error (.duplicateImport "metering" "usegas") ∧
      (∀ s ∈ recursingMetered.sections, s.HasShortPayload) ∧
      ∃ written,
        meterBytes recursingBytes { MeterOptions.oneEach with meterType := .f64 } = .ok written ∧
          meterBytes written .standard =
            .error (.metering (.duplicateImport "metering" "usegas")) := by
  have hdecode : Module.decode recursingBytes = .ok recursing := by decide +kernel
  have hmeter : recursing.meter { MeterOptions.oneEach with meterType := .f64 } =
      .ok recursingMetered := by
    rw [meter_eq]
    decide +kernel
  have hshort : ∀ s ∈ recursingMetered.sections, s.HasShortPayload := by decide +kernel
  obtain ⟨written, hwritten, -⟩ := exists_meterBytes_eq_ok hdecode hmeter
  obtain ⟨hmodules, hbytes⟩ :=
    @meter_again { MeterOptions.oneEach with meterType := .f64 } .standard rfl rfl
  obtain ⟨m, metered, hm, hmetered, hrefused⟩ := hbytes recursingBytes written hwritten
  -- The bytes are those of one module, of which the result is one.
  rw [hdecode, Except.ok.injEq] at hm
  subst hm
  rw [hmeter, Except.ok.injEq] at hmetered
  subst hmetered
  exact ⟨rfl, rfl, hmeter, hmodules _ _ hmeter, hshort, written, hwritten, hrefused hshort⟩

end Module

end WasmMeter
