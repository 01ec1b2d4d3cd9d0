import WasmMeter.Proofs.FirstSection
import WasmMeter.Proofs.Gas.Shift

/-!
# The references of a module

The first export section, the first element section and the start section refer to functions. In
each of them every reference is shifted behind the import, or the first one that cannot be shifted
is an error (`Module.shiftReferences_eq`). Signatures, imports and code are not affected.
-/

set_option autoImplicit false

namespace WasmMeter

/-! ### Entries -/

namespace Export

/-- The export behind the import. -/
def shifted (meterIndex : UInt32) (entry : Export) : Export :=
  if entry.kind = .function then { entry with index := WasmMeter.shifted meterIndex entry.index }
  else entry

/-- Why an export cannot be shifted. -/
def shiftError? (meterIndex : UInt32) (entry : Export) : Option MeteringError :=
  if entry.kind = .function then WasmMeter.shiftError? meterIndex entry.index else none

theorem shift_eq (meterIndex : UInt32) (entry : Export) :
    entry.shift meterIndex = outcome (entry.shiftError? meterIndex) (entry.shifted meterIndex) := by
  unfold shift shiftError? shifted
  split
  · rw [shiftIndex_eq, outcome_map]
  · rfl

end Export

namespace ElementSegment

/-- The element segment behind the import. -/
def shifted (meterIndex : UInt32) (segment : ElementSegment) : ElementSegment :=
  { segment with functions := segment.functions.map (WasmMeter.shifted meterIndex) }

/-- Why an element segment cannot be shifted. -/
def shiftError? (meterIndex : UInt32) (segment : ElementSegment) : Option MeteringError :=
  segment.functions.findSome? (WasmMeter.shiftError? meterIndex)

theorem shift_eq (meterIndex : UInt32) (segment : ElementSegment) :
    segment.shift meterIndex =
      outcome (segment.shiftError? meterIndex) (segment.shifted meterIndex) := by
  rw [shift, mapM_eq_outcome (shiftIndex_eq meterIndex), outcome_map]
  rfl

end ElementSegment

/-! ### Sections -/

/-- The first element of a kind is replaced, or there is an error in it. -/
theorem tryReplaceFirst_eq {α β : Type} {query : α → Option β} {f : β → Except MeteringError α}
    {error? : β → Option MeteringError} {result : β → α}
    (hf : ∀ b, f b = outcome (error? b) (result b)) (list : List α) :
    tryReplaceFirst (fun a ↦ (query a).map f) list =
      outcome ((list.findSome? query).bind error?)
        (replaceFirst (fun a ↦ (query a).map result) list) := by
  induction list with
  | nil => rfl
  | cons a later ih =>
    rw [tryReplaceFirst, replaceFirst, List.findSome?_cons]
    cases hquery : query a with
    | none =>
      simp only [Option.map_none]
      rw [ih, outcome_map]
    | some b =>
      simp only [Option.map_some, Option.bind_some]
      rw [hf, outcome_map]

namespace Module

theorem tryUpdateFirst_eq {β : Type} {query : Section → Option β}
    {f : β → Except MeteringError Section} {error? : β → Option MeteringError}
    {result : β → Section} (hf : ∀ b, f b = outcome (error? b) (result b)) (m : Module) :
    m.tryUpdateFirst (fun s ↦ (query s).map f) =
      outcome ((m.sections.findSome? query).bind error?)
        (m.updateFirst fun s ↦ (query s).map result) := by
  rw [tryUpdateFirst, tryReplaceFirst_eq hf, outcome_map]
  rfl

/-- The module with the exports of its first export section shifted. -/
def shiftedExports (meterIndex : UInt32) (m : Module) : Module :=
  m.updateFirst fun s ↦ s.exports?.map fun entries ↦
    .exports (entries.map (Export.shifted meterIndex))

/-- The module with the segments of its first element section shifted. -/
def shiftedElements (meterIndex : UInt32) (m : Module) : Module :=
  m.updateFirst fun s ↦ s.elements?.map fun segments ↦
    .elements (segments.map (ElementSegment.shifted meterIndex))

/-- The module with the function of its first start section shifted. -/
def shiftedStart (meterIndex : UInt32) (m : Module) : Module :=
  m.updateFirst fun s ↦ s.start?.map fun index ↦ .start (WasmMeter.shifted meterIndex index)

/-- The module behind the import, but for its code. -/
def shifted (meterIndex : UInt32) (m : Module) : Module :=
  ((m.shiftedExports meterIndex).shiftedElements meterIndex).shiftedStart meterIndex

/-- Why the references of a module cannot be shifted. -/
def shiftError? (meterIndex : UInt32) (m : Module) : Option MeteringError :=
  (m.exports?.bind fun entries ↦ entries.findSome? (Export.shiftError? meterIndex)).or
    ((m.elements?.bind fun segments ↦ segments.findSome? (ElementSegment.shiftError? meterIndex)).or
      (m.start?.bind (WasmMeter.shiftError? meterIndex)))

/-- A question about sections that are not shifted. -/
theorem findSome?_sections_shiftedExports {β : Type} {query : Section → Option β}
    (h : ∀ entries, query (.exports entries) = none) (meterIndex : UInt32) (m : Module) :
    (m.shiftedExports meterIndex).sections.findSome? query = m.sections.findSome? query :=
  findSome?_replaceFirst_map_of_none Section.exports? (fun s _ hs ↦ by cases s <;> cases hs; rfl)
    h _ m.sections

theorem findSome?_sections_shiftedElements {β : Type} {query : Section → Option β}
    (h : ∀ segments, query (.elements segments) = none) (meterIndex : UInt32) (m : Module) :
    (m.shiftedElements meterIndex).sections.findSome? query = m.sections.findSome? query :=
  findSome?_replaceFirst_map_of_none Section.elements? (fun s _ hs ↦ by cases s <;> cases hs; rfl)
    h _ m.sections

theorem findSome?_sections_shiftedStart {β : Type} {query : Section → Option β}
    (h : ∀ index, query (.start index) = none) (meterIndex : UInt32) (m : Module) :
    (m.shiftedStart meterIndex).sections.findSome? query = m.sections.findSome? query :=
  findSome?_replaceFirst_map_of_none Section.start? (fun s _ hs ↦ by cases s <;> cases hs; rfl)
    h _ m.sections

/-- A question about sections that hold no reference. -/
theorem findSome?_sections_shifted {β : Type} {query : Section → Option β}
    (hexports : ∀ entries, query (.exports entries) = none)
    (helements : ∀ segments, query (.elements segments) = none)
    (hstart : ∀ index, query (.start index) = none) (meterIndex : UInt32) (m : Module) :
    (m.shifted meterIndex).sections.findSome? query = m.sections.findSome? query := by
  rw [shifted, findSome?_sections_shiftedStart hstart, findSome?_sections_shiftedElements helements,
    findSome?_sections_shiftedExports hexports]

/-- Every kind of reference is shifted in its own section. -/
theorem exports?_shifted (meterIndex : UInt32) (m : Module) :
    (m.shifted meterIndex).exports? = m.exports?.map (List.map (Export.shifted meterIndex)) := by
  have hlater : (m.shifted meterIndex).exports? = (m.shiftedExports meterIndex).exports? :=
    (findSome?_sections_shiftedStart (fun _ ↦ rfl) meterIndex _).trans
      (findSome?_sections_shiftedElements (fun _ ↦ rfl) meterIndex _)
  rw [hlater]
  exact findSome?_replaceFirst_map Section.exports? (fun _ ↦ rfl) _ m.sections

theorem elements?_shifted (meterIndex : UInt32) (m : Module) :
    (m.shifted meterIndex).elements? =
      m.elements?.map (List.map (ElementSegment.shifted meterIndex)) := by
  have hlater : (m.shifted meterIndex).elements? =
      ((m.shiftedExports meterIndex).shiftedElements meterIndex).elements? :=
    findSome?_sections_shiftedStart (fun _ ↦ rfl) meterIndex _
  have hearlier : (m.shiftedExports meterIndex).elements? = m.elements? :=
    findSome?_sections_shiftedExports (fun _ ↦ rfl) meterIndex m
  rw [hlater, ← hearlier]
  exact findSome?_replaceFirst_map Section.elements? (fun _ ↦ rfl) _ _

theorem start?_shifted (meterIndex : UInt32) (m : Module) :
    (m.shifted meterIndex).start? = m.start?.map (WasmMeter.shifted meterIndex) := by
  have hearlier : ((m.shiftedExports meterIndex).shiftedElements meterIndex).start? = m.start? :=
    (findSome?_sections_shiftedElements (fun _ ↦ rfl) meterIndex _).trans
      (findSome?_sections_shiftedExports (fun _ ↦ rfl) meterIndex m)
  rw [← hearlier]
  exact findSome?_replaceFirst_map Section.start? (fun _ ↦ rfl) _ _

/-- All references of a module are shifted, or the first one that cannot be shifted is an error. -/
theorem shiftReferences_eq (meterIndex : UInt32) (m : Module) :
    m.shiftReferences meterIndex = outcome (m.shiftError? meterIndex) (m.shifted meterIndex) := by
  have hexports : ∀ entries : List Export,
      (entries.mapM (Export.shift meterIndex)).map Section.exports =
        outcome (entries.findSome? (Export.shiftError? meterIndex))
          (.exports (entries.map (Export.shifted meterIndex))) := fun entries ↦ by
    rw [mapM_eq_outcome (Export.shift_eq meterIndex), outcome_map]
  have helements : ∀ segments : List ElementSegment,
      (segments.mapM (ElementSegment.shift meterIndex)).map Section.elements =
        outcome (segments.findSome? (ElementSegment.shiftError? meterIndex))
          (.elements (segments.map (ElementSegment.shifted meterIndex))) := fun segments ↦ by
    rw [mapM_eq_outcome (ElementSegment.shift_eq meterIndex), outcome_map]
  have hstart : ∀ index, (shiftIndex meterIndex index).map Section.start =
      outcome (WasmMeter.shiftError? meterIndex index)
        (.start (WasmMeter.shifted meterIndex index)) := fun index ↦ by
    rw [shiftIndex_eq, outcome_map]
  have helements? : (m.shiftedExports meterIndex).elements? = m.elements? :=
    findSome?_sections_shiftedExports (fun _ ↦ rfl) meterIndex m
  have hstart? : ((m.shiftedExports meterIndex).shiftedElements meterIndex).start? = m.start? :=
    (findSome?_sections_shiftedElements (fun _ ↦ rfl) meterIndex _).trans
      (findSome?_sections_shiftedExports (fun _ ↦ rfl) meterIndex m)
  unfold shiftReferences shiftError?
  rw [tryUpdateFirst_eq hexports, ← helements?, ← hstart?]
  refine outcome_bind (a := m.shiftedExports meterIndex) ?_
  rw [tryUpdateFirst_eq helements]
  exact outcome_bind (a := (m.shiftedExports meterIndex).shiftedElements meterIndex)
    (tryUpdateFirst_eq hstart _)

end Module

end WasmMeter
