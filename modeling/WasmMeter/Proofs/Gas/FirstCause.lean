import WasmMeter.Proofs.Gas.Correspondence
import WasmMeter.Proofs.Gas.ExactCharges
import WasmMeter.Proofs.Gas.Signatures

/-!
# What stands in the way of metering

Four things stand in the way of metering, and the first of them that is there is the error of the
pass (`FirstCause`): the import of the metering function that exists already, a reference to the
largest index, a body without a signature, and a block. A block is refused if the meter is one of
integers and the exact cost of the block and of its charge is past the limit, or else if it calls
the largest index (`MeterOptions.blockFailure?`).

Nothing else is an error, and a module with no such cause is metered (`Module.meter_firstCause`).
The first export, element, import and code sections are meant, as everywhere in the pass: a
reference to the largest index in a second export section is no error, and is kept as it is
(`Module.overlooks_meter`).
-/

set_option autoImplicit false

namespace WasmMeter

open MeterOptions

/-! ### Errors that a condition raises -/

/-- There is an error if and only if something is the case, and then it is this one. -/
structure Raises (error? : Option MeteringError) (error : MeteringError) (P : Prop) : Prop where
  eq_some : P → error? = some error
  eq_none : ¬P → error? = none

namespace Raises

variable {α : Type} {error? later? : Option MeteringError} {error : MeteringError} {P Q : Prop}

theorem eq_none_iff (h : Raises error? error P) : error? = none ↔ ¬P := by
  refine ⟨fun hnone hP ↦ ?_, h.eq_none⟩
  rw [h.eq_some hP] at hnone
  cases hnone

theorem eq_some_iff (h : Raises error? error P) {other : MeteringError} :
    error? = some other ↔ P ∧ other = error := by
  by_cases hP : P
  · rw [h.eq_some hP, Option.some_inj, and_iff_right hP]
    exact eq_comm
  · rw [h.eq_none hP]
    exact ⟨nofun, fun hother ↦ absurd hother.1 hP⟩

theorem congr (h : Raises error? error P) (hPQ : P ↔ Q) : Raises error? error Q :=
  ⟨fun hQ ↦ h.eq_some (hPQ.mpr hQ), fun hQ ↦ h.eq_none (mt hPQ.mp hQ)⟩

/-- One of two conditions raises the same error. -/
theorem or (h : Raises error? error P) (hlater : Raises later? error Q) :
    Raises (error?.or later?) error (P ∨ Q) := by
  by_cases hP : P
  · rw [h.eq_some hP]
    exact ⟨fun _ ↦ rfl, fun hnot ↦ absurd (.inl hP) hnot⟩
  · rw [h.eq_none hP, Option.none_or]
    exact hlater.congr (or_iff_right hP).symm

/-- One element of a list raises the error. -/
theorem findSome? {f : α → Option MeteringError} {R : α → Prop}
    (h : ∀ a, Raises (f a) error (R a)) (list : List α) :
    Raises (list.findSome? f) error (∃ a ∈ list, R a) := by
  induction list with
  | nil => exact ⟨fun ⟨_, hmem, _⟩ ↦ absurd hmem List.not_mem_nil, fun _ ↦ rfl⟩
  | cons a later ih =>
    rw [findSome?_cons_eq_or]
    exact ((h a).or ih).congr (List.exists_mem_cons_iff R a later).symm

/-- One element of the first section of a kind raises the error. -/
theorem bind_findSome? {f : α → Option MeteringError} {R : α → Prop}
    (h : ∀ a, Raises (f a) error (R a)) (list? : Option (List α)) :
    Raises (list?.bind fun list ↦ list.findSome? f) error (∃ a ∈ list?.getD [], R a) := by
  have hgetD : (list?.bind fun list ↦ list.findSome? f) = (list?.getD []).findSome? f := by
    cases list? <;> rfl
  rw [hgetD]
  exact .findSome? h _

/-- Of two conditions with errors of their own, the first one counts. -/
theorem or_eq_ite {other : MeteringError} [Decidable P] [Decidable Q] (h : Raises error? error P)
    (hlater : Raises later? other Q) :
    error?.or later? = if P then some error else if Q then some other else none := by
  split_ifs with hP hQ
  · rw [h.eq_some hP, Option.some_or]
  · rw [h.eq_none hP, Option.none_or, hlater.eq_some hQ]
  · rw [h.eq_none hP, Option.none_or, hlater.eq_none hQ]

end Raises

/-! ### References -/

/-- The largest index, behind which there is no other one. -/
def lastIndex : UInt32 := 0xffffffff

/-- The largest index cannot be shifted, wherever the import is. -/
theorem raises_shiftError? (meterIndex index : UInt32) :
    Raises (shiftError? meterIndex index) (.indexOverflow lastIndex) (index = lastIndex) := by
  constructor
  · rintro rfl
    have hlast : lastIndex.toNat = 4294967295 := rfl
    have hbound : meterIndex.toNat < 4294967296 := meterIndex.toNat_lt
    refine if_neg (not_or.mpr ⟨?_, by decide⟩)
    rw [UInt32.lt_iff_toNat_lt]
    omega
  · intro hne
    have hbound : index.toNat < 4294967296 := index.toNat_lt
    have hlast : index.toNat ≠ 4294967295 := fun heq ↦ hne (UInt32.toNat_inj.mp heq)
    refine if_pos (.inr ?_)
    show index.toNat + 1 < 4294967296
    omega

/-- An index that is called is shifted as any other one. -/
theorem raises_callError? (meterIndex : UInt32) (instruction : Instruction) :
    Raises (instruction.callError? meterIndex) (.indexOverflow lastIndex)
      (instruction.callee? = some lastIndex) := by
  unfold Instruction.callError?
  cases instruction.callee? with
  | none => exact ⟨nofun, fun _ ↦ rfl⟩
  | some index => exact (raises_shiftError? meterIndex index).congr Option.some_inj.symm

theorem Export.raises_shiftError? (meterIndex : UInt32) (entry : Export) :
    Raises (entry.shiftError? meterIndex) (.indexOverflow lastIndex)
      (entry.kind = .function ∧ entry.index = lastIndex) := by
  unfold shiftError?
  by_cases hkind : entry.kind = .function
  · rw [if_pos hkind]
    exact (WasmMeter.raises_shiftError? meterIndex entry.index).congr (and_iff_right hkind).symm
  · rw [if_neg hkind]
    exact ⟨fun h ↦ absurd h.1 hkind, fun _ ↦ rfl⟩

theorem ElementSegment.raises_shiftError? (meterIndex : UInt32) (segment : ElementSegment) :
    Raises (segment.shiftError? meterIndex) (.indexOverflow lastIndex)
      (lastIndex ∈ segment.functions) :=
  (Raises.findSome? (WasmMeter.raises_shiftError? meterIndex) segment.functions).congr
    exists_eq_right

namespace Module

/-- A field of a module is among the imports, whatever it supplies. -/
def Imports (m : Module) (moduleName field : String) : Prop :=
  ∃ entry ∈ m.imports?.getD [], entry.moduleName = moduleName ∧ entry.field = field

/-- A function is exported, stored by an element segment, or started with. -/
def RefersTo (m : Module) (index : UInt32) : Prop :=
  (∃ entry ∈ m.exports?.getD [], entry.kind = .function ∧ entry.index = index) ∨
    (∃ segment ∈ m.elements?.getD [], index ∈ segment.functions) ∨ m.start? = some index

theorem raises_shiftError? (meterIndex : UInt32) (m : Module) :
    Raises (m.shiftError? meterIndex) (.indexOverflow lastIndex) (m.RefersTo lastIndex) := by
  have hstart : Raises (m.start?.bind (WasmMeter.shiftError? meterIndex))
      (.indexOverflow lastIndex) (m.start? = some lastIndex) := by
    cases m.start? with
    | none => exact ⟨nofun, fun _ ↦ rfl⟩
    | some index => exact (WasmMeter.raises_shiftError? meterIndex index).congr Option.some_inj.symm
  exact (Raises.bind_findSome? (Export.raises_shiftError? meterIndex) m.exports?).or
    ((Raises.bind_findSome? (ElementSegment.raises_shiftError? meterIndex) m.elements?).or hstart)

end Module

namespace MeterOptions

theorem raises_importError? (options : MeterOptions) (m : Module) :
    Raises (options.importError? (withSections m))
      (.duplicateImport options.importModule options.importField)
      (m.Imports options.importModule options.importField) := by
  have himports : (withSections m).importsField options.importModule options.importField = true ↔
      m.Imports options.importModule options.importField := by
    rw [Module.importsField, imports?_withSections, Option.getD_some, List.any_eq_true]
    simp only [Bool.and_eq_true, beq_iff_eq]
    rfl
  exact ⟨fun h ↦ if_pos (himports.mpr h), fun h ↦ if_neg (mt himports.mp h)⟩

/-! ### Blocks -/

/-- Why a block of a cost cannot be metered. That it costs too much comes first, and the cost is
told up to the largest one. -/
def blockFailure? (options : MeterOptions) (costed : Nat × List Instruction) :
    Option MeteringError :=
  if costed.1 ≠ 0 ∧ ∃ limit ∈ options.limit?, limit < costed.1 + options.exactOverhead then
    some (.costOverflow (UInt64.ofNat (min (costed.1 + options.exactOverhead) maxCost))
      options.meterType)
  else if ∃ instruction ∈ costed.2, instruction.callee? = some lastIndex then
    some (.indexOverflow lastIndex)
  else none

/-- What is charged for a block that costs something. -/
theorem saturatingAdd_blockCost {options : MeterOptions} {startCost : UInt64} {start : Nat}
    (hstart : startCost.toNat = min start maxCost) (block : List Instruction) :
    saturatingAdd (options.blockCost startCost block) options.chargeCost = UInt64.ofNat
      (min (start + options.costTable.exactCodeCost block + options.exactOverhead) maxCost) := by
  rw [saturatingAdd, toNat_blockCost hstart, toNat_chargeCost, min_add_min_maxCost]

/-- A cost is past the limit if its exact value is. -/
theorem raises_limitError? (options : MeterOptions) (exact : Nat) :
    Raises (options.limitError? (UInt64.ofNat (min exact maxCost)))
      (.costOverflow (UInt64.ofNat (min exact maxCost)) options.meterType)
      (∃ limit ∈ options.limit?, limit < exact) := by
  have hpast : (options.limit?.any fun limit ↦
      limit < (UInt64.ofNat (min exact maxCost)).toNat) = true ↔
        ∃ limit ∈ options.limit?, limit < exact := by
    rw [UInt64.toNat_ofNat_of_lt' (min_maxCost_lt_size exact), Option.any_eq_true]
    simp only [decide_eq_true_eq]
    refine exists_congr fun limit ↦ and_congr_right fun hlimit ↦ ?_
    -- The limit of integers lies below the largest cost, so a sum that is cut off is past it.
    have hlt := limit_lt_maxCost hlimit
    omega
  exact ⟨fun h ↦ if_pos (hpast.mpr h), fun h ↦ if_neg (mt hpast.mp h)⟩

theorem raises_chargeError? {options : MeterOptions} {startCost : UInt64} {start : Nat}
    (hstart : startCost.toNat = min start maxCost) (block : List Instruction) :
    Raises (options.chargeError? startCost block)
      (.costOverflow (UInt64.ofNat (min (start + options.costTable.exactCodeCost block +
        options.exactOverhead) maxCost)) options.meterType)
      (start + options.costTable.exactCodeCost block ≠ 0 ∧ ∃ limit ∈ options.limit?,
        limit < start + options.costTable.exactCodeCost block + options.exactOverhead) := by
  unfold chargeError?
  by_cases hfree : options.blockCost startCost block = 0
  · rw [if_pos hfree]
    have hzero := (blockCost_eq_zero_iff hstart).mp hfree
    exact ⟨fun h ↦ absurd hzero h.1, fun _ ↦ rfl⟩
  · have hcost := mt (blockCost_eq_zero_iff hstart).mpr hfree
    rw [if_neg hfree, saturatingAdd_blockCost hstart]
    exact (options.raises_limitError? _).congr (and_iff_right hcost).symm

/-- What the pass finds wrong with a block, by its exact cost. -/
theorem blockError?_eq {options : MeterOptions} {startCost : UInt64} {start : Nat}
    (hstart : startCost.toNat = min start maxCost) (meterIndex : UInt32)
    (block : List Instruction) :
    options.blockError? meterIndex startCost block =
      options.blockFailure? (start + options.costTable.exactCodeCost block, block) :=
  (raises_chargeError? hstart block).or_eq_ite
    (.findSome? (raises_callError? meterIndex) block)

/-- The statements that the pass writes can be read. -/
theorem blockFailure?_ne_listing (options : MeterOptions) (costed : Nat × List Instruction)
    (error : ListingError) : options.blockFailure? costed ≠ some (.listing error) := by
  unfold blockFailure?
  split_ifs <;> exact nofun

theorem blocksError?_eq {options : MeterOptions} {startCost : UInt64} {start : Nat}
    (hstart : startCost.toNat = min start maxCost) (meterIndex : UInt32)
    (bs : List (List Instruction)) :
    options.blocksError? meterIndex startCost bs =
      ((options.costTable.blockCosts start bs).zip bs).findSome? options.blockFailure? := by
  induction bs generalizing startCost start with
  | nil => rfl
  | cons block later ih =>
    -- Behind the first block there is no start cost.
    have hlater := ih (show (0 : UInt64).toNat = min 0 maxCost from rfl)
    rw [blocksError?, blockError?_eq hstart, hlater, CostTable.blockCosts, List.zip_cons_cons,
      findSome?_cons_eq_or]

/-- What the body of an index costs before its first instruction, without a bound. -/
def exactStart (options : MeterOptions) (m : Module) (body : FunctionBody × Nat) : Nat :=
  (options.signatureAfter? m body.2).elim 0 options.costTable.exactSignatureCost +
    options.costTable.exactLocalsCost body.1.locals

/-- The blocks of all bodies in their order, each with its exact cost. -/
def costedBlocks (options : MeterOptions) (m : Module) : List (Nat × List Instruction) :=
  (m.code?.getD []).zipIdx.flatMap fun body ↦
    (options.costTable.blockCosts (options.exactStart m body) (blocks body.1.code)).zip
      (blocks body.1.code)

theorem toNat_startCost_prepared (options : MeterOptions) (m : Module)
    (body : FunctionBody × Nat) :
    (options.startCost (options.prepared m) body).toNat =
      min (options.exactStart m body) maxCost := by
  have hsignature : ((options.signatureAfter? m body.2).elim 0
      options.costTable.signatureCost).toNat =
        min ((options.signatureAfter? m body.2).elim 0 options.costTable.exactSignatureCost)
          maxCost := by
    cases options.signatureAfter? m body.2 with
    | none => rfl
    | some signature => exact options.costTable.toNat_signatureCost signature
  rw [startCost, exactStart, signatureOf?_prepared_eq, toNat_saturatingAdd, hsignature,
    CostTable.toNat_localsCost, min_add_min_maxCost]

/-- What the pass finds wrong with the bodies is what is wrong with the first block that cannot be
metered. -/
theorem findSome?_bodyError?_eq (options : MeterOptions) (m : Module) :
    (options.costedBodies (options.prepared m)).findSome? (options.bodyError? (meterIndexOf m)) =
      (options.costedBlocks m).findSome? options.blockFailure? := by
  rw [costedBodies, code?_prepared, List.findSome?_map, costedBlocks, findSome?_flatMap]
  refine congrArg (List.findSome? · _) (funext fun body ↦ ?_)
  exact blocksError?_eq (options.toNat_startCost_prepared m body) _ _

end MeterOptions

/-! ### The first cause -/

/-- The first thing that stands in the way of metering a module, and the error that tells it. -/
inductive FirstCause (options : MeterOptions) (m : Module) : MeteringError → Prop
  | duplicateImport (himport : m.Imports options.importModule options.importField) :
      FirstCause options m (.duplicateImport options.importModule options.importField)
  | reference (himport : ¬m.Imports options.importModule options.importField)
      (hreference : m.RefersTo lastIndex) : FirstCause options m (.indexOverflow lastIndex)
  | missingSignature {body : Nat} (himport : ¬m.Imports options.importModule options.importField)
      (hreference : ¬m.RefersTo lastIndex) (hbody : body < (m.code?.getD []).length)
      (hnone : options.signatureAfter? m body = none)
      (hleast : ∀ earlier < body, options.signatureAfter? m earlier ≠ none) :
      FirstCause options m (.missingSignature body)
  | block {before behind : List (Nat × List Instruction)} {costed : Nat × List Instruction}
      {error : MeteringError} (himport : ¬m.Imports options.importModule options.importField)
      (hreference : ¬m.RefersTo lastIndex)
      (hsignatures : ∀ body < (m.code?.getD []).length, options.signatureAfter? m body ≠ none)
      (hblocks : options.costedBlocks m = before ++ costed :: behind)
      (hbefore : ∀ earlier ∈ before, options.blockFailure? earlier = none)
      (hblock : options.blockFailure? costed = some error) : FirstCause options m error

/-- Nothing stands in the way of metering a module. -/
structure Unobstructed (options : MeterOptions) (m : Module) : Prop where
  imports : ¬m.Imports options.importModule options.importField
  references : ¬m.RefersTo lastIndex
  signatures : ∀ body < (m.code?.getD []).length, options.signatureAfter? m body ≠ none
  blocks : ∀ costed ∈ options.costedBlocks m, options.blockFailure? costed = none

namespace MeterOptions

variable {options : MeterOptions} {m : Module}

/-- The four stages of the pass, in terms of the module that it starts with. -/
theorem meterError?_eq (options : MeterOptions) (m : Module) :
    options.meterError? m = (options.importError? (withSections m)).or
      ((m.shiftError? (meterIndexOf m)).or
        (((m.code?.getD []).zipIdx.findSome? (signatureError? (options.prepared m))).or
          ((options.costedBlocks m).findSome? options.blockFailure?))) := by
  rw [meterError?, shiftError?_withImport, code?_prepared, findSome?_bodyError?_eq]

theorem meterError?_eq_none_iff : options.meterError? m = none ↔ Unobstructed options m := by
  rw [meterError?_eq, Option.or_eq_none_iff, Option.or_eq_none_iff, Option.or_eq_none_iff,
    (options.raises_importError? m).eq_none_iff, (m.raises_shiftError? _).eq_none_iff,
    findSome?_signatureError?_prepared_eq_none_iff, List.findSome?_eq_none_iff]
  exact ⟨fun ⟨himport, hreference, hsignatures, hblocks⟩ ↦
    ⟨himport, hreference, hsignatures, hblocks⟩,
    fun h ↦ ⟨h.imports, h.references, h.signatures, h.blocks⟩⟩

theorem meterError?_eq_some_iff {error : MeteringError} :
    options.meterError? m = some error ↔ FirstCause options m error := by
  rw [meterError?_eq, Option.or_eq_some_iff, Option.or_eq_some_iff, Option.or_eq_some_iff,
    (options.raises_importError? m).eq_some_iff, (options.raises_importError? m).eq_none_iff,
    (m.raises_shiftError? _).eq_some_iff, (m.raises_shiftError? _).eq_none_iff,
    findSome?_signatureError?_prepared_eq_some_iff, findSome?_signatureError?_prepared_eq_none_iff,
    List.findSome?_eq_some_iff]
  constructor
  · rintro (⟨himport, rfl⟩ | ⟨himport, ⟨hreference, rfl⟩ | ⟨hreference, hlater⟩⟩)
    · exact .duplicateImport himport
    · exact .reference himport hreference
    · rcases hlater with ⟨body, hbody, hnone, hleast, rfl⟩ |
        ⟨hsignatures, before, costed, behind, hblocks, hblock, hbefore⟩
      · exact .missingSignature himport hreference hbody hnone hleast
      · exact .block himport hreference hsignatures hblocks hbefore hblock
  · intro h
    cases h with
    | duplicateImport himport => exact .inl ⟨himport, rfl⟩
    | reference himport hreference => exact .inr ⟨himport, .inl ⟨hreference, rfl⟩⟩
    | missingSignature himport hreference hbody hnone hleast =>
      exact .inr ⟨himport, .inr ⟨hreference, .inl ⟨_, hbody, hnone, hleast, rfl⟩⟩⟩
    | block himport hreference hsignatures hblocks hbefore hblock =>
      exact .inr ⟨himport, .inr ⟨hreference, .inr ⟨hsignatures, _, _, _, hblocks, hblock,
        hbefore⟩⟩⟩

end MeterOptions

/-- The pass fails with the first cause and with nothing else. It succeeds where there is none, and
the statements that it writes can always be read. -/
theorem Module.meter_firstCause (m : Module) (options : MeterOptions) :
    (∀ error, m.meter options = .error error ↔ FirstCause options m error) ∧
      ((∃ metered, m.meter options = .ok metered) ↔ Unobstructed options m) ∧
      ∀ error, m.meter options ≠ .error (.listing error) := by
  have herror (error : MeteringError) :
      m.meter options = .error error ↔ FirstCause options m error := by
    rw [meter_eq, outcome_eq_error_iff, meterError?_eq_some_iff]
  refine ⟨herror, ?_, fun error hlisting ↦ ?_⟩
  · rw [← meterError?_eq_none_iff]
    constructor
    · rintro ⟨metered, hmetered⟩
      rw [meter_eq, outcome_eq_ok_iff] at hmetered
      exact hmetered.1
    · intro hnone
      exact ⟨options.metered m, by rw [meter_eq, hnone, outcome_none]⟩
  · -- No cause is told by the error of a listing.
    cases (herror _).mp hlisting with
    | block _ _ _ _ _ hblock => exact options.blockFailure?_ne_listing _ error hblock

/-- A module that exports the function of the largest index in its second export section. -/
def Module.exportingLast : Module :=
  ⟨.standard, [.exports [], .exports [⟨"f", .function, lastIndex⟩]]⟩

/-- The bytes of `Module.exportingLast`. -/
def exportingLastBytes : Bytes :=
  [0x00, 0x61, 0x73, 0x6d, 0x01, 0x00, 0x00, 0x00, 0x07, 0x01, 0x00, 0x07, 0x09, 0x01, 0x01, 0x66,
    0x00, 0xff, 0xff, 0xff, 0xff, 0x0f]

/-- The export of a function that cannot be shifted is kept as it is. -/
theorem Module.overlooks_meter :
    Module.decode exportingLastBytes = .ok exportingLast ∧
      .exports [⟨"f", .function, 4294967295⟩] ∈ exportingLast.sections ∧
      ∃ metered, exportingLast.meter .oneEach = .ok metered ∧
        .exports [⟨"f", .function, 4294967295⟩] ∈ metered.sections := by
  refine ⟨by decide +kernel, by decide, MeterOptions.oneEach.metered exportingLast, ?_, ?_⟩
  · rw [meter_eq]
    decide +kernel
  · decide +kernel

end WasmMeter
