import WasmMeter.Proofs.Gas.Erasure

/-!
# Corresponding references

What a metered module has in the place of an export, of an element segment or of an instruction
differs from it in its references to functions only. `Corresponds` says so with the relation of a
reference to what stands in its place as a parameter: a relation that holds of every index and the
shifted index (`RelatesShifted`). One such relation is that functions from a position on have moved
up by one (`MovedPast`).
-/

set_option autoImplicit false

namespace WasmMeter

open Instruction MeterOptions

/-- An index of a function, before and after a function was put in at a position. -/
def MovedPast (position : Nat) (index index' : UInt32) : Prop :=
  index'.toNat = if index.toNat < position then index.toNat else index.toNat + 1

/-- Exports of one name and kind. The reference to a function is related, any other one is kept. -/
structure Export.Corresponds (R : UInt32 → UInt32 → Prop) (entry entry' : Export) : Prop where
  field : entry'.field = entry.field
  kind : entry'.kind = entry.kind
  function : entry.kind = .function → R entry.index entry'.index
  other : entry.kind ≠ .function → entry'.index = entry.index

/-- Segments that store related functions at one place. -/
structure ElementSegment.Corresponds (R : UInt32 → UInt32 → Prop)
    (segment segment' : ElementSegment) : Prop where
  table : segment'.table = segment.table
  offset : segment'.offset = segment.offset
  functions : List.Forall₂ R segment.functions segment'.functions

/-- Calls of related functions, or one instruction that is no call. -/
inductive Instruction.Corresponds (R : UInt32 → UInt32 → Prop) : Instruction → Instruction → Prop
  | call {instruction : Instruction} {index index' : UInt32}
      (hcallee : instruction.callee? = some index) (h : R index index') :
      Corresponds R instruction (instruction.withImmediate (.varUint32 index'))
  | other {instruction : Instruction} (h : instruction.callee? = none) :
      Corresponds R instruction instruction

/-! ### Related lists -/

theorem forall₂_map {α β : Type} {R : α → β → Prop} {f : α → β} {list : List α}
    (h : ∀ a ∈ list, R a (f a)) : List.Forall₂ R list (list.map f) :=
  List.forall₂_map_right_iff.mpr (List.forall₂_same.mpr h)

theorem rel_map {α β : Type} {R : α → β → Prop} {f : α → β} {option : Option α}
    (h : ∀ a ∈ option, R a (f a)) : Option.Rel R option (option.map f) := by
  cases option with
  | none => exact .none
  | some a => exact .some (h a rfl)

/-- Lists of which the elements at one position are related. -/
theorem forall₂_of_getElem? {α β : Type} {S : Nat → α → β → Prop} {R : α → β → Prop}
    {list : List α} {list' : List β} (hR : ∀ position a b, S position a b → R a b)
    (h : ∀ position : Nat, Option.Rel (S position) list[position]? list'[position]?) :
    List.Forall₂ R list list' := by
  induction list generalizing list' S with
  | nil =>
    cases list' with
    | nil => exact .nil
    | cons b later => exact nomatch h 0
  | cons a later ih =>
    cases list' with
    | nil => exact nomatch h 0
    | cons b later' =>
      have hfirst : Option.Rel (S 0) (some a) (some b) := h 0
      obtain ⟨hab⟩ := hfirst
      exact .cons (hR 0 a b hab)
        (ih (fun position ↦ hR (position + 1)) fun position ↦ h (position + 1))

/-! ### Shifted references -/

/-- A relation of every index that can be shifted to the shifted index. -/
def RelatesShifted (R : UInt32 → UInt32 → Prop) (meterIndex : UInt32) : Prop :=
  ∀ index, shiftError? meterIndex index = none → R index (shifted meterIndex index)

theorem relatesShifted_movedPast (meterIndex : UInt32) :
    RelatesShifted (MovedPast meterIndex.toNat) meterIndex := fun _ ↦ toNat_shifted

section Shifted

variable {R : UInt32 → UInt32 → Prop} {meterIndex : UInt32} (hR : RelatesShifted R meterIndex)

include hR

theorem Export.corresponds_shifted {entry : Export} (h : entry.shiftError? meterIndex = none) :
    Export.Corresponds R entry (entry.shifted meterIndex) := by
  unfold shiftError? at h
  unfold shifted
  by_cases hkind : entry.kind = .function
  · rw [if_pos hkind] at h ⊢
    exact ⟨rfl, rfl, fun _ ↦ hR entry.index h, fun hother ↦ absurd hkind hother⟩
  · rw [if_neg hkind]
    exact ⟨rfl, rfl, fun hfunction ↦ absurd hfunction hkind, fun _ ↦ rfl⟩

theorem ElementSegment.corresponds_shifted {segment : ElementSegment}
    (h : segment.shiftError? meterIndex = none) :
    ElementSegment.Corresponds R segment (segment.shifted meterIndex) :=
  ⟨rfl, rfl, forall₂_map fun index hindex ↦
    hR index (List.findSome?_eq_none_iff.mp h index hindex)⟩

theorem Instruction.corresponds_mapCallee {instruction : Instruction}
    (h : instruction.callError? meterIndex = none) :
    Instruction.Corresponds R instruction (instruction.mapCallee (shifted meterIndex)) := by
  unfold mapCallee
  cases hcallee : instruction.callee? with
  | some index => exact .call hcallee (hR index (shiftError?_of_callError? h hcallee))
  | none => exact .other hcallee

end Shifted

/-! ### Bodies -/

/-- The body at a position with its code metered, as it stands in the metered module: the blocks of
the code are charged for, the first one together with the signature and the locals of the body. -/
structure FunctionBody.MeteredAt (options : MeterOptions) (meterIndex : UInt32) (metered : Module)
    (position : Nat) (body body' : FunctionBody) : Prop where
  locals : body'.locals = body.locals
  charged : ∃ signature, signatureOf? metered position = some signature ∧
    Charged options meterIndex (options.costTable.exactStartCost signature body.locals)
      (blocks body.code) body'.code

namespace FunctionBody.MeteredAt

variable {options : MeterOptions} {meterIndex : UInt32} {metered : Module} {position : Nat}
  {body body' : FunctionBody}

theorem callsArePaid (h : MeteredAt options meterIndex metered position body body') :
    CallsArePaid options.meterType meterIndex body'.code := by
  obtain ⟨signature, -, hcharged⟩ := h.charged
  exact hcharged.callsArePaid

/-- Apart from the charges, the instructions of a body stay, and its calls are shifted. -/
theorem corresponds {R : UInt32 → UInt32 → Prop} (hR : RelatesShifted R meterIndex)
    (h : MeteredAt options meterIndex metered position body body') :
    List.Forall₂ (Instruction.Corresponds R) body.code (withoutCharges meterIndex body'.code) := by
  obtain ⟨signature, -, hcharged⟩ := h.charged
  have herased := hcharged.withoutCharges_eq
  have hcalls := hcharged.callError?_eq_none
  rw [flatten_blocks] at herased hcalls
  rw [herased]
  exact forall₂_map fun instruction hmem ↦ corresponds_mapCallee hR (hcalls instruction hmem)

end FunctionBody.MeteredAt

/-! ### Modules -/

namespace MeterOptions

theorem exports?_metered (options : MeterOptions) (m : Module) : (options.metered m).exports? =
    m.exports?.map (List.map (Export.shifted (meterIndexOf m))) := by
  have hprepared : (options.metered m).exports? = (options.prepared m).exports? :=
    findSome?_sections_metered (fun _ ↦ rfl) options m
  have himport : (options.withImport (withSections m)).exports? = m.exports? :=
    findSome?_sections_withImport (fun _ ↦ rfl) (fun _ ↦ rfl) options m
  rw [hprepared, prepared, Module.exports?_shifted, himport]

theorem elements?_metered (options : MeterOptions) (m : Module) : (options.metered m).elements? =
    m.elements?.map (List.map (ElementSegment.shifted (meterIndexOf m))) := by
  have hprepared : (options.metered m).elements? = (options.prepared m).elements? :=
    findSome?_sections_metered (fun _ ↦ rfl) options m
  have himport : (options.withImport (withSections m)).elements? = m.elements? :=
    findSome?_sections_withImport (fun _ ↦ rfl) (fun _ ↦ rfl) options m
  rw [hprepared, prepared, Module.elements?_shifted, himport]

theorem start?_metered (options : MeterOptions) (m : Module) :
    (options.metered m).start? = m.start?.map (shifted (meterIndexOf m)) := by
  have hprepared : (options.metered m).start? = (options.prepared m).start? :=
    findSome?_sections_metered (fun _ ↦ rfl) options m
  have himport : (options.withImport (withSections m)).start? = m.start? :=
    findSome?_sections_withImport (fun _ ↦ rfl) (fun _ ↦ rfl) options m
  rw [hprepared, prepared, Module.start?_shifted, himport]

variable {options : MeterOptions} {m m' : Module}

theorem eq_metered_of_meter_eq_ok (h : m.meter options = .ok m') : m' = options.metered m := by
  rw [Module.meter_eq, outcome_eq_ok_iff] at h
  exact h.2.symm

/-- References do not depend on the sections that the pass adds, nor on the import. -/
theorem shiftError?_withImport (options : MeterOptions) (m : Module) (meterIndex : UInt32) :
    (options.withImport (withSections m)).shiftError? meterIndex = m.shiftError? meterIndex := by
  have hexports : (options.withImport (withSections m)).exports? = m.exports? :=
    findSome?_sections_withImport (fun _ ↦ rfl) (fun _ ↦ rfl) options m
  have helements : (options.withImport (withSections m)).elements? = m.elements? :=
    findSome?_sections_withImport (fun _ ↦ rfl) (fun _ ↦ rfl) options m
  have hstart : (options.withImport (withSections m)).start? = m.start? :=
    findSome?_sections_withImport (fun _ ↦ rfl) (fun _ ↦ rfl) options m
  rw [Module.shiftError?, hexports, helements, hstart]
  rfl

theorem shiftError?_of_meter_eq_ok (h : m.meter options = .ok m') :
    m.shiftError? (meterIndexOf m) = none := by
  rw [Module.meter_eq, outcome_eq_ok_iff] at h
  obtain ⟨-, herror⟩ := Option.or_eq_none_iff.mp h.1
  rw [← shiftError?_withImport options]
  exact (Option.or_eq_none_iff.mp herror).1

theorem shiftError?_of_exports (h : m.meter options = .ok m') {entries : List Export}
    (hentries : m.exports? = some entries) {entry : Export} (hmem : entry ∈ entries) :
    entry.shiftError? (meterIndexOf m) = none := by
  have hexports := (Option.or_eq_none_iff.mp (shiftError?_of_meter_eq_ok h)).1
  rw [hentries, Option.bind_some] at hexports
  exact List.findSome?_eq_none_iff.mp hexports entry hmem

theorem shiftError?_of_elements (h : m.meter options = .ok m') {segments : List ElementSegment}
    (hsegments : m.elements? = some segments) {segment : ElementSegment}
    (hmem : segment ∈ segments) : segment.shiftError? (meterIndexOf m) = none := by
  obtain ⟨-, hlater⟩ := Option.or_eq_none_iff.mp (shiftError?_of_meter_eq_ok h)
  have helements := (Option.or_eq_none_iff.mp hlater).1
  rw [hsegments, Option.bind_some] at helements
  exact List.findSome?_eq_none_iff.mp helements segment hmem

theorem shiftError?_of_start (h : m.meter options = .ok m') {index : UInt32}
    (hindex : m.start? = some index) : shiftError? (meterIndexOf m) index = none := by
  obtain ⟨-, hlater⟩ := Option.or_eq_none_iff.mp (shiftError?_of_meter_eq_ok h)
  have hstart := (Option.or_eq_none_iff.mp hlater).2
  rwa [hindex, Option.bind_some] at hstart

/-! ### The first sections -/

section Sections

variable {R : UInt32 → UInt32 → Prop}

theorem exports_correspond (hR : RelatesShifted R (meterIndexOf m)) (h : m.meter options = .ok m') :
    Option.Rel (List.Forall₂ (Export.Corresponds R)) m.exports? m'.exports? := by
  rw [eq_metered_of_meter_eq_ok h, exports?_metered]
  exact rel_map fun entries hentries ↦ forall₂_map fun entry hmem ↦
    Export.corresponds_shifted hR (shiftError?_of_exports h hentries hmem)

theorem elements_correspond (hR : RelatesShifted R (meterIndexOf m))
    (h : m.meter options = .ok m') :
    Option.Rel (List.Forall₂ (ElementSegment.Corresponds R)) m.elements? m'.elements? := by
  rw [eq_metered_of_meter_eq_ok h, elements?_metered]
  exact rel_map fun segments hsegments ↦ forall₂_map fun segment hmem ↦
    ElementSegment.corresponds_shifted hR (shiftError?_of_elements h hsegments hmem)

theorem start_corresponds (hR : RelatesShifted R (meterIndexOf m)) (h : m.meter options = .ok m') :
    Option.Rel R m.start? m'.start? := by
  rw [eq_metered_of_meter_eq_ok h, start?_metered]
  exact rel_map fun index hindex ↦ hR index (shiftError?_of_start h hindex)

/-- Every body of the first code section is metered at its position. -/
theorem code_meteredAt (h : m.meter options = .ok m') :
    Option.Rel (fun bodies bodies' : List FunctionBody ↦ ∀ position : Nat, Option.Rel
      (FunctionBody.MeteredAt options (meterIndexOf m) m' position) bodies[position]?
        bodies'[position]?) m.code? m'.code? := by
  cases hbodies : m.code? with
  | none =>
    have hlength := length_code?_of_meter_eq_ok h
    rw [hbodies, Option.map_none, Option.map_eq_none_iff] at hlength
    rw [hlength]
    exact .none
  | some bodies =>
    obtain ⟨bodies', hbodies', hlength⟩ := exists_bodies_of_meter_eq_ok h hbodies
    rw [hbodies']
    refine .some fun position ↦ ?_
    cases hbody : bodies[position]? with
    | none =>
      have hout := List.getElem?_eq_none_iff.mp hbody
      rw [List.getElem?_eq_none_iff.mpr (hlength.trans_le hout)]
      exact .none
    | some body =>
      obtain ⟨signature, code, hbody', hsignature, -, hcharged⟩ :=
        exists_charged_of_meter_eq_ok h hbodies hbodies' hbody
      rw [hbody']
      exact .some ⟨rfl, signature, hsignature, hcharged⟩

/-- The calls of every body of the first code section are shifted, and the charges aside, no call
of the metering function is in it. -/
theorem code_corresponds (hR : RelatesShifted R (meterIndexOf m)) (h : m.meter options = .ok m') :
    Option.Rel (List.Forall₂ fun body body' ↦
      List.Forall₂ (Instruction.Corresponds R) body.code
          (withoutCharges (meterIndexOf m) body'.code) ∧
        CallsArePaid options.meterType (meterIndexOf m) body'.code) m.code? m'.code? := by
  have hcode := code_meteredAt h
  revert hcode
  generalize m.code? = code, m'.code? = code'
  rintro (hbodies | _)
  · exact .some (forall₂_of_getElem?
      (fun _ _ _ hbody ↦ ⟨hbody.corresponds hR, hbody.callsArePaid⟩) hbodies)
  · exact .none

end Sections

end MeterOptions

/-- A module with references of all kinds, on either side of the metering function and past all
functions. -/
def Module.referring : Module :=
  ⟨.standard, [.types [.func [] none],
    .imports [⟨"env", "memory", .memory ⟨1, none⟩⟩, ⟨"env", "f", .function 0⟩], .functions [0],
    .exports [⟨"f", .function, 0⟩, ⟨"g", .function, 1⟩, ⟨"h", .function, 7⟩,
      ⟨"memory", .memory, 1⟩],
    .start 1, .elements [⟨0, .amount .i32 0, [1, 0]⟩],
    .code [⟨[], [.call 0, .call 1, ⟨"end", none, none⟩]⟩]]⟩

/-- What `Module.referring` becomes. -/
def Module.referringMetered : Module :=
  ⟨.standard, [.types [.func [] none, .func [.i64] none],
    .imports [⟨"env", "memory", .memory ⟨1, none⟩⟩, ⟨"env", "f", .function 0⟩,
      ⟨"metering", "usegas", .function 1⟩], .functions [0],
    .exports [⟨"f", .function, 0⟩, ⟨"g", .function, 2⟩, ⟨"h", .function, 8⟩,
      ⟨"memory", .memory, 1⟩],
    .start 2, .elements [⟨0, .amount .i32 0, [2, 0]⟩],
    .code [⟨[], [.amount .i64 6, .call 1, .call 0, .call 2, ⟨"end", none, none⟩]⟩]]⟩

theorem Module.meter_referring : referring.meter .oneEach = .ok referringMetered := by
  rw [meter_eq]
  decide +kernel

end WasmMeter
