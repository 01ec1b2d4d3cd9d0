import WasmMeter.Proofs.Gas.Correspondence

/-!
# What function indices stand for

The functions of a module are counted imports first: an index stands for an imported function, for a
function that the module defines, or for nothing (`Module.resolve?`). The import of the metering
function moves the functions behind it up, and a reference that is shifted stands for the same
function as before, or for nothing as before (`keepsMeaning_shifted`). The metering function itself
is what no shifted reference stands for, so that a module cannot call it but in its charges.

This is true of the references that the pass shifts. Those in a second section of a kind are not
shifted, and neither are those in the instructions that initialize globals, element segments and
data segments: behind the import they stand for another function, or for the metering function.
-/

set_option autoImplicit false

namespace WasmMeter

open Instruction MeterOptions

/-! ### Functions -/

/-- A function of a module. One that the module defines has a position among them, the index of its
signature, and its body, if there is one. -/
inductive ResolvedFunction
  | imported (entry : Import)
  | defined (position : Nat) (typeIndex : UInt32) (body : Option FunctionBody)
  deriving DecidableEq, Repr

namespace Module

/-- The imported functions. -/
def functionImports (m : Module) : List Import := (m.imports?.getD []).filter Import.isFunction

/-- The function that an index stands for. -/
def resolve? (m : Module) (index : UInt32) : Option ResolvedFunction :=
  if index.toNat < m.importedFunctions then m.functionImports[index.toNat]?.map .imported
  else
    let position := index.toNat - m.importedFunctions
    (m.functions?.getD [])[position]?.map fun typeIndex ↦
      .defined position typeIndex (m.code?.getD [])[position]?

theorem resolve?_of_lt {m : Module} {index : UInt32} (h : index.toNat < m.importedFunctions) :
    m.resolve? index = m.functionImports[index.toNat]?.map .imported := if_pos h

theorem resolve?_of_eq_add {m : Module} {index : UInt32} {position : Nat}
    (h : index.toNat = m.importedFunctions + position) :
    m.resolve? index = (m.functions?.getD [])[position]?.map fun typeIndex ↦
      .defined position typeIndex (m.code?.getD [])[position]? := by
  have hposition : index.toNat - m.importedFunctions = position := by omega
  rw [resolve?, if_neg (by omega), hposition]

theorem length_functionImports (m : Module) : m.functionImports.length = m.importedFunctions :=
  List.countP_eq_length_filter.symm

end Module

/-- A function before and after the pass: the same import, or a function of the same signature at
the same position with its body metered. -/
inductive ResolvedFunction.MeteredIn (options : MeterOptions) (meterIndex : UInt32)
    (metered : Module) : ResolvedFunction → ResolvedFunction → Prop
  | imported {entry : Import} : MeteredIn options meterIndex metered (.imported entry)
      (.imported entry)
  | defined {position : Nat} {typeIndex : UInt32} {body body' : Option FunctionBody}
      (hbody : Option.Rel (FunctionBody.MeteredAt options meterIndex metered position) body body') :
      MeteredIn options meterIndex metered (.defined position typeIndex body)
        (.defined position typeIndex body')

/-- A reference and what is in its place after the pass. They stand for the same function or both
for nothing, and the latter is not the index of the metering function. -/
structure KeepsMeaning (options : MeterOptions) (meterIndex : UInt32) (m metered : Module)
    (index index' : UInt32) : Prop where
  same : Option.Rel (ResolvedFunction.MeteredIn options meterIndex metered) (m.resolve? index)
    (metered.resolve? index')
  ne : index' ≠ meterIndex

/-- The references in the first section of each kind keep their meaning: those of the exports, of
the element segments, of the start function, and of the calls. The metering function is the import
that was added, its signature takes a value of the type of the meter, and only charges call it. -/
structure KeepsReferences (options : MeterOptions) (meterIndex : UInt32) (m metered : Module) :
    Prop where
  meter : ∃ typeIndex, metered.resolve? meterIndex =
      some (.imported ⟨options.importModule, options.importField, .function typeIndex⟩) ∧
    (metered.types?.getD [])[typeIndex.toNat]? = some (.func [options.meterType] none)
  exports : Option.Rel
    (List.Forall₂ (Export.Corresponds (KeepsMeaning options meterIndex m metered)))
    m.exports? metered.exports?
  elements : Option.Rel
    (List.Forall₂ (ElementSegment.Corresponds (KeepsMeaning options meterIndex m metered)))
    m.elements? metered.elements?
  start : Option.Rel (KeepsMeaning options meterIndex m metered) m.start? metered.start?
  calls : Option.Rel
    (List.Forall₂ fun body body' ↦
      List.Forall₂ (Instruction.Corresponds (KeepsMeaning options meterIndex m metered)) body.code
          (withoutCharges meterIndex body'.code) ∧
        CallsArePaid options.meterType meterIndex body'.code)
    m.code? metered.code?

namespace MeterOptions

variable {options : MeterOptions} {m m' : Module}

/-! ### The function space of a metered module -/

theorem imports?_of_meter_eq_ok (h : m.meter options = .ok m') : m'.imports?.getD [] =
    m.imports?.getD [] ++ [options.meterImport (withSections m)] := by
  have hprepared : (options.metered m).imports? = (options.prepared m).imports? :=
    findSome?_sections_metered (fun _ ↦ rfl) options m
  rw [eq_metered_of_meter_eq_ok h, hprepared, imports?_prepared, Option.getD_some]

theorem types?_of_meter_eq_ok (h : m.meter options = .ok m') :
    m'.types?.getD [] = m.types?.getD [] ++ [options.signature] := by
  have hprepared : (options.metered m).types? = (options.prepared m).types? :=
    findSome?_sections_metered (fun _ ↦ rfl) options m
  rw [eq_metered_of_meter_eq_ok h, hprepared, types?_prepared, Option.getD_some]

theorem functions?_of_meter_eq_ok (h : m.meter options = .ok m') :
    m'.functions? = m.functions? := by
  have hprepared : (options.metered m).functions? = (options.prepared m).functions? :=
    findSome?_sections_metered (fun _ ↦ rfl) options m
  rw [eq_metered_of_meter_eq_ok h, hprepared, functions?_prepared]

/-- The metering function is the last imported function. -/
theorem functionImports_of_meter_eq_ok (h : m.meter options = .ok m') :
    m'.functionImports = m.functionImports ++ [options.meterImport (withSections m)] := by
  rw [Module.functionImports, imports?_of_meter_eq_ok h, List.filter_append]
  rfl

theorem importedFunctions_of_meter_eq_ok (h : m.meter options = .ok m') :
    m'.importedFunctions = m.importedFunctions + 1 := by
  rw [← Module.length_functionImports, functionImports_of_meter_eq_ok h, List.length_append,
    Module.length_functionImports, List.length_singleton]

/-! ### References -/

/-- A body is metered at its position, whether there is a code section or not. -/
theorem rel_meteredAt (h : m.meter options = .ok m') (position : Nat) :
    Option.Rel (FunctionBody.MeteredAt options (meterIndexOf m) m' position)
      (m.code?.getD [])[position]? (m'.code?.getD [])[position]? := by
  have hcode := code_meteredAt h
  revert hcode
  generalize m.code? = code, m'.code? = code'
  rintro (hbodies | _)
  · exact hbodies position
  · exact .none

/-- A shifted reference stands for what it stood for, and not for the metering function. -/
theorem keepsMeaning_shifted (hindex : (meterIndexOf m).toNat = m.importedFunctions)
    (h : m.meter options = .ok m') :
    RelatesShifted (KeepsMeaning options (meterIndexOf m) m m') (meterIndexOf m) := by
  intro index herror
  refine ⟨?_, shifted_ne herror⟩
  have htoNat := toNat_shifted herror
  rw [hindex] at htoNat
  have hcount := importedFunctions_of_meter_eq_ok h
  by_cases hbefore : index.toNat < m.importedFunctions
  · -- In front of the metering function, imports stay where they are.
    rw [if_pos hbefore] at htoNat
    have hbound : index.toNat < m.functionImports.length := by
      rwa [Module.length_functionImports]
    rw [Module.resolve?_of_lt hbefore, Module.resolve?_of_lt (by omega), htoNat,
      functionImports_of_meter_eq_ok h, List.getElem?_append_left hbound,
      List.getElem?_eq_getElem hbound]
    exact .some .imported
  · -- Behind it, the position among the defined functions stays.
    obtain ⟨position, hposition⟩ := Nat.exists_eq_add_of_le (Nat.not_lt.mp hbefore)
    rw [if_neg hbefore] at htoNat
    have hposition' : (shifted (meterIndexOf m) index).toNat = m'.importedFunctions + position := by
      omega
    rw [Module.resolve?_of_eq_add hposition, Module.resolve?_of_eq_add hposition',
      functions?_of_meter_eq_ok h]
    cases (m.functions?.getD [])[position]? with
    | none => exact .none
    | some typeIndex =>
      exact .some (ResolvedFunction.MeteredIn.defined (rel_meteredAt h position))

/-- The index of the metering function stands for the import, and the import names the signature. -/
theorem resolve?_meterIndexOf (hindex : (meterIndexOf m).toNat = m.importedFunctions)
    (htypes : (m.types?.getD []).length < 2 ^ 32 - 1) (h : m.meter options = .ok m') :
    ∃ typeIndex, m'.resolve? (meterIndexOf m) =
        some (.imported ⟨options.importModule, options.importField, .function typeIndex⟩) ∧
      (m'.types?.getD [])[typeIndex.toNat]? = some (.func [options.meterType] none) := by
  have hlength : ((withSections m).types?.getD []).length = (m.types?.getD []).length := by
    rw [types?_withSections, Option.getD_some]
  refine ⟨UInt32.ofNat ((withSections m).types?.getD []).length, ?_, ?_⟩
  · have hlast : m.functionImports.length ≤ (meterIndexOf m).toNat := by
      rw [Module.length_functionImports, hindex]
    rw [Module.resolve?_of_lt (by rw [hindex, importedFunctions_of_meter_eq_ok h]; omega),
      functionImports_of_meter_eq_ok h, List.getElem?_append_right hlast, hindex,
      Module.length_functionImports, Nat.sub_self]
    rfl
  · have htoNat : (UInt32.ofNat (m.types?.getD []).length).toNat = (m.types?.getD []).length :=
      UInt32.toNat_ofNat_of_lt' (lt_trans htypes (by decide))
    rw [hlength, htoNat, types?_of_meter_eq_ok h, List.getElem?_concat_length]
    rfl

end MeterOptions

/-- The pass keeps the meaning of the references of a module, whether they stand for anything or
not. -/
theorem Module.keepsReferences_of_meter_eq_ok {m m' : Module} {options : MeterOptions}
    (himports : (m.imports?.getD []).length < 2 ^ 32 - 1)
    (htypes : (m.types?.getD []).length < 2 ^ 32 - 1) (h : m.meter options = .ok m') :
    ∃ meterIndex : UInt32, meterIndex.toNat = m.importedFunctions ∧
      KeepsReferences options meterIndex m m' := by
  have hindex := toNat_meterIndexOf himports
  have hmeaning := keepsMeaning_shifted hindex h
  refine ⟨meterIndexOf m, hindex, resolve?_meterIndexOf hindex htypes h,
    exports_correspond hmeaning h, elements_correspond hmeaning h, start_corresponds hmeaning h,
    code_corresponds hmeaning h⟩

theorem Module.keepsReferences_referring :
    (referring.imports?.getD []).length < 2 ^ 32 - 1 ∧
      (referring.types?.getD []).length < 2 ^ 32 - 1 ∧
      referring.meter .oneEach = .ok referringMetered ∧
      ∃ meterIndex : UInt32, meterIndex.toNat = referring.importedFunctions ∧
        KeepsReferences .oneEach meterIndex referring referringMetered := by
  have himports : (referring.imports?.getD []).length < 2 ^ 32 - 1 := by decide
  have htypes : (referring.types?.getD []).length < 2 ^ 32 - 1 := by decide
  exact ⟨himports, htypes, meter_referring,
    keepsReferences_of_meter_eq_ok himports htypes meter_referring⟩

/-- A module that exports its function in its second export section. -/
def Module.exportingTwice : Module :=
  ⟨.standard, [.types [.func [] none], .functions [0], .exports [], .exports [⟨"f", .function, 0⟩],
    .code [⟨[], [⟨"end", none, none⟩]⟩]]⟩

/-- A module that calls its function to initialize a global. -/
def Module.callingInitially : Module :=
  ⟨.standard, [.types [.func [] none], .functions [0], .globals [⟨⟨.i32, false⟩, .call 0⟩],
    .code [⟨[], [⟨"end", none, none⟩]⟩]]⟩

/-- Both modules refer to the function that they define, and to the metering function once they are
metered. -/
theorem Module.strays_meter :
    (exportingTwice.resolve? 0 = some (.defined 0 0 (some ⟨[], [⟨"end", none, none⟩]⟩)) ∧
      ∃ metered, exportingTwice.meter .oneEach = .ok metered ∧
        .exports [⟨"f", .function, 0⟩] ∈ metered.sections ∧
        metered.resolve? 0 = some (.imported ⟨"metering", "usegas", .function 1⟩)) ∧
    (callingInitially.resolve? 0 = some (.defined 0 0 (some ⟨[], [⟨"end", none, none⟩]⟩)) ∧
      ∃ metered, callingInitially.meter .oneEach = .ok metered ∧
        .globals [⟨⟨.i32, false⟩, .call 0⟩] ∈ metered.sections ∧
        metered.resolve? 0 = some (.imported ⟨"metering", "usegas", .function 1⟩)) := by
  have hmeter {m : Module} (h : MeterOptions.oneEach.meterError? m = none) :
      m.meter .oneEach = .ok (MeterOptions.oneEach.metered m) := by
    rw [meter_eq, h, outcome_none]
  refine ⟨⟨by decide, _, hmeter (by decide +kernel), ?_, ?_⟩,
    ⟨by decide, _, hmeter (by decide +kernel), ?_, ?_⟩⟩
  all_goals decide +kernel

end WasmMeter
