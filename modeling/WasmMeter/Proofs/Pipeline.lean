import WasmMeter.Pipeline
import WasmMeter.Proofs.Binary.Faithful
import WasmMeter.Proofs.Gas.Erasure
import WasmMeter.Proofs.Listing.BinaryForm

/-!
# Metering of bytes

The instructions of a module that was read are canonical, and they stay so where the module is
metered: the import and the shift of references leave all instructions in place
(`MeterOptions.instructions_prepared`), a call is a call whatever it calls
(`Instruction.Canonical.mapCallee`), and the two instructions of a charge are canonical for every
type of the meter (`MeterOptions.canonical_charge`). So a metered module is always written, and
metering of bytes fails only where reading or metering does (`meterBytes_agrees`).
-/

set_option autoImplicit false

namespace WasmMeter

open Instruction

/-! ### Instructions -/

/-- A call with another callee is still a call with an index. -/
theorem Instruction.Canonical.mapCallee {instruction : Instruction} (h : instruction.Canonical)
    (f : UInt32 → UInt32) : (instruction.mapCallee f).Canonical := by
  unfold Instruction.mapCallee
  cases hcallee : instruction.callee? with
  | none => exact h
  | some index =>
    have hshape : some Shape.varUint32 = instruction.shape? := by
      rw [← h.shaped, (callee?_eq_some_iff.mp hcallee).2]
      rfl
    refine ⟨h.named, hshape, ?_⟩
    rintro _ ⟨⟩ flag hflag
    cases hflag

namespace MeterOptions

/-- The constant of a charge is one of an opcode, whatever the type of the meter is. -/
theorem canonical_amount (type : ValueType) (amount : Nat) :
    (Instruction.amount type amount).Canonical := by
  refine ⟨(Listing.hasOpcode_amount type amount).named, by cases type <;> rfl, ?_⟩
  rintro _ ⟨⟩ flag hflag
  cases type <;> cases hflag

theorem canonical_call (function : UInt32) : (Instruction.call function).Canonical :=
  (Listing.spelledBy_call function).canonical

theorem canonical_charge (options : MeterOptions) (amount : Nat) (meterIndex : UInt32) :
    ∀ instruction ∈ options.charge amount meterIndex, instruction.Canonical := by
  rw [charge, List.forall_mem_cons, List.forall_mem_singleton]
  exact ⟨canonical_amount options.meterType amount, canonical_call meterIndex⟩

/-! ### Blocks and bodies -/

/-- A block is still canonical behind its charge, with its calls shifted. -/
theorem canonical_paidBlock {options : MeterOptions} {meterIndex : UInt32} {startCost : UInt64}
    {block : List Instruction} (h : ∀ instruction ∈ block, instruction.Canonical) :
    ∀ instruction ∈ options.paidBlock meterIndex startCost block, instruction.Canonical := by
  rw [paidBlock, List.forall_mem_append, List.forall_mem_map]
  refine ⟨?_, fun instruction hmem ↦ (h instruction hmem).mapCallee _⟩
  unfold blockCharge
  split
  · exact fun _ hmem ↦ absurd hmem List.not_mem_nil
  · exact options.canonical_charge _ meterIndex

theorem canonical_paidBlocks {options : MeterOptions} {meterIndex : UInt32} {startCost : UInt64}
    {bs : List (List Instruction)} (h : ∀ instruction ∈ bs.flatten, instruction.Canonical) :
    ∀ instruction ∈ options.paidBlocks meterIndex startCost bs, instruction.Canonical := by
  induction bs generalizing startCost with
  | nil => exact nofun
  | cons block later ih =>
    rw [List.flatten_cons, List.forall_mem_append] at h
    rw [paidBlocks, List.forall_mem_append]
    exact ⟨canonical_paidBlock h.1, ih h.2⟩

/-- The body behind its charges, of which the first one pays the start cost. -/
theorem canonical_paidBody {options : MeterOptions} {meterIndex : UInt32}
    {body : FunctionBody × UInt64} (h : ∀ instruction ∈ body.1.code, instruction.Canonical) :
    ∀ instruction ∈ (options.paidBody meterIndex body).code, instruction.Canonical := by
  refine canonical_paidBlocks ?_
  rwa [flatten_blocks]

/-! ### Modules -/

theorem instructions_ensure {id : SectionId}
    (h : ∀ s ∈ Section.empty? id, s.instructions = []) (m : Module) :
    (m.ensure id).instructions = m.instructions := by
  rcases ensure_eq_self_or id m with ⟨hself, -⟩ | ⟨s, hempty, -, hinsert⟩
  · rw [hself]
  · rw [hinsert]
    exact Module.flatMap_insertInto_of_nil (h s hempty) m.sections

/-- Instructions stand in none of the entries that are added or shifted. Where an element segment is
shifted, its offset stays. -/
theorem instructions_prepared (options : MeterOptions) (m : Module) :
    (options.prepared m).instructions = m.instructions := by
  have hsections : (withSections m).instructions = m.instructions :=
    (instructions_ensure (by rintro s ⟨⟩; rfl) _).trans
      (instructions_ensure (by rintro s ⟨⟩; rfl) m)
  rw [← hsections]
  -- Each step replaces one section, by one with the same instructions.
  refine (flatMap_replaceFirst (fun s s' hs ↦ ?_) _).trans
    ((flatMap_replaceFirst (fun s s' hs ↦ ?_) _).trans
      ((flatMap_replaceFirst (fun s s' hs ↦ ?_) _).trans
        ((flatMap_replaceFirst (fun s s' hs ↦ ?_) _).trans
          (flatMap_replaceFirst (fun s s' hs ↦ ?_) _))))
  all_goals
    obtain ⟨entries, hentries, rfl⟩ := Option.map_eq_some_iff.mp hs
    cases s <;> cases hentries
  · rfl
  · exact List.map_map
  all_goals rfl

/-- The instructions of a metered module stand in the module, or in a metered body. -/
theorem mem_instructions_metered {options : MeterOptions} {m : Module} {instruction : Instruction}
    (h : instruction ∈ (options.metered m).instructions) :
    instruction ∈ m.instructions ∨
      ∃ body ∈ options.meteredBodies m, instruction ∈ body.code := by
  obtain ⟨s, hs, hinstruction⟩ := List.mem_flatMap.mp h
  rcases mem_replaceFirst hs with hkept | ⟨old, -, hcode⟩
  · rw [← instructions_prepared options m]
    exact .inl (List.mem_flatMap.mpr ⟨s, hkept, hinstruction⟩)
  · obtain ⟨bodies, -, rfl⟩ := Option.map_eq_some_iff.mp hcode
    exact .inr (List.mem_flatMap.mp hinstruction)

/-- The bodies of the first code section are among those of the module. -/
theorem mem_instructions_of_mem_code? {m : Module} {body : FunctionBody}
    (hbody : body ∈ m.code?.getD []) {instruction : Instruction} (h : instruction ∈ body.code) :
    instruction ∈ m.instructions := by
  obtain ⟨bodies, hbodies, hmem⟩ : ∃ bodies, m.code? = some bodies ∧ body ∈ bodies := by
    by_cases hcode : m.code? = none
    · rw [hcode] at hbody
      exact absurd hbody List.not_mem_nil
    · obtain ⟨bodies, hbodies⟩ := Option.ne_none_iff_exists'.mp hcode
      rw [hbodies, Option.getD_some] at hbody
      exact ⟨bodies, hbodies, hbody⟩
  obtain ⟨s, hs, hcode⟩ := List.exists_of_findSome?_eq_some hbodies
  cases s <;> cases hcode
  exact List.mem_flatMap.mpr ⟨_, hs, List.mem_flatMap.mpr ⟨body, hmem, h⟩⟩

/-- Metering keeps a module canonical. -/
theorem canonical_metered {options : MeterOptions} {m : Module}
    (h : ∀ instruction ∈ m.instructions, instruction.Canonical) :
    ∀ instruction ∈ (options.metered m).instructions, instruction.Canonical := by
  intro instruction hmem
  rcases mem_instructions_metered hmem with hkept | ⟨body', hbody', hinstruction⟩
  · exact h instruction hkept
  · obtain ⟨costed, hcosted, rfl⟩ := List.mem_map.mp hbody'
    obtain ⟨indexed, hindexed, rfl⟩ := List.mem_map.mp hcosted
    refine canonical_paidBody (fun original horiginal ↦ h original ?_) instruction hinstruction
    have hbody : indexed.1 ∈ (options.prepared m).code?.getD [] :=
      List.fst_mem_of_mem_zipIdx hindexed
    rw [code?_prepared] at hbody
    exact mem_instructions_of_mem_code? hbody horiginal

end MeterOptions

/-! ### Bytes -/

/-- A module that was read is written again once it is metered. -/
theorem Module.exists_writes_of_meter_eq_ok {bytes : Bytes} {m metered : Module}
    {options : MeterOptions} (hdecode : Module.decode bytes = .ok m)
    (hmeter : m.meter options = .ok metered) :
    ∃ written, Writes metered.encoder written ∧
      ((∀ s ∈ metered.sections, s.HasShortPayload) → Module.decode written = .ok metered) := by
  rw [meter_eq, outcome_eq_ok_iff] at hmeter
  obtain ⟨-, rfl⟩ := hmeter
  exact exists_writes_of_canonical
    (MeterOptions.canonical_metered (canonical_of_decode_eq_ok hdecode))

/-- What follows once the bytes are read. -/
theorem meterBytes_of_decode_eq_ok {bytes : Bytes} {m : Module} (options : MeterOptions)
    (h : Module.decode bytes = .ok m) :
    meterBytes bytes options = (m.meter options).mapError .metering >>= fun metered ↦
      (metered.encoder.run .empty).mapError .encode := by
  rw [meterBytes, h]
  rfl

/-- A metered module is written, and what is written is read as this module. -/
theorem Module.exists_meterBytes_eq_ok {bytes : Bytes} {m metered : Module}
    {options : MeterOptions} (hdecode : Module.decode bytes = .ok m)
    (hmeter : m.meter options = .ok metered) :
    ∃ written, meterBytes bytes options = .ok written ∧
      ((∀ s ∈ metered.sections, s.HasShortPayload) → Module.decode written = .ok metered) := by
  obtain ⟨written, hwrites, hread⟩ := exists_writes_of_meter_eq_ok hdecode hmeter
  refine ⟨written, ?_, hread⟩
  rw [meterBytes_of_decode_eq_ok options hdecode, hmeter]
  show (metered.encoder.run .empty).mapError PipelineError.encode = _
  rw [hwrites.run]
  rfl

/-- Metering of bytes fails as reading does, or else as metering of the module does that was read.
It does not fail otherwise, and what it writes is read as the metered module if all payloads are
short enough to be counted. -/
theorem meterBytes_agrees (bytes : Bytes) (options : MeterOptions) :
    match Module.decode bytes with
    | .error error => meterBytes bytes options = .error (.decode error)
    | .ok m =>
      match m.meter options with
      | .error error => meterBytes bytes options = .error (.metering error)
      | .ok metered => ∃ written, meterBytes bytes options = .ok written ∧
          ((∀ s ∈ metered.sections, s.HasShortPayload) → Module.decode written = .ok metered) := by
  cases hdecode : Module.decode bytes with
  | error error =>
    simp only
    rw [meterBytes, hdecode]
    rfl
  | ok m =>
    simp only
    cases hmeter : m.meter options with
    | error error =>
      simp only
      rw [meterBytes_of_decode_eq_ok options hdecode, hmeter]
      rfl
    | ok metered => exact Module.exists_meterBytes_eq_ok hdecode hmeter

/-- The bytes of a module with a function that calls itself. The length of its code section is
padded. -/
def recursingBytes : Bytes :=
  [0x00, 0x61, 0x73, 0x6d, 0x01, 0x00, 0x00, 0x00, 0x01, 0x04, 0x01, 0x60, 0x00, 0x00, 0x03, 0x02,
    0x01, 0x00, 0x0a, 0x86, 0x00, 0x01, 0x04, 0x00, 0x10, 0x00, 0x0b]

/-- The module with a function that calls itself. -/
def Module.recursing : Module :=
  ⟨.standard, [.types [.func [] none], .functions [0],
    .code [⟨[], [.call 0, ⟨"end", none, none⟩]⟩]]⟩

/-- What `Module.recursing` becomes if it is charged in floats. -/
def Module.recursingMetered : Module :=
  ⟨.standard, [.types [.func [] none, .func [.f64] none],
    .imports [⟨"metering", "usegas", .function 1⟩], .functions [0],
    .code [⟨[], [.amount .f64 5, .call 0, .call 1, ⟨"end", none, none⟩]⟩]]⟩

theorem meterBytes_agrees_recursing :
    Module.decode recursingBytes = .ok .recursing ∧
      Module.recursing.meter { MeterOptions.oneEach with meterType := .f64 } =
        .ok .recursingMetered ∧
      (∀ s ∈ Module.recursingMetered.sections, s.HasShortPayload) ∧
      ∃ written,
        meterBytes recursingBytes { MeterOptions.oneEach with meterType := .f64 } = .ok written ∧
          Module.decode written = .ok .recursingMetered := by
  have hdecode : Module.decode recursingBytes = .ok .recursing := by decide +kernel
  have hmeter : Module.recursing.meter { MeterOptions.oneEach with meterType := .f64 } =
      .ok .recursingMetered := by
    rw [Module.meter_eq]
    decide +kernel
  have hshort : ∀ s ∈ Module.recursingMetered.sections, s.HasShortPayload := by decide +kernel
  have hagrees := meterBytes_agrees recursingBytes { MeterOptions.oneEach with meterType := .f64 }
  simp only [hdecode, hmeter] at hagrees
  obtain ⟨written, hwritten, hread⟩ := hagrees
  exact ⟨hdecode, hmeter, hshort, written, hwritten, hread hshort⟩

end WasmMeter
