import WasmMeter.Proofs.Gas.Pass

/-!
# The bodies of a metered module

The pass keeps the bodies of the first code section in place and changes nothing in them but their
code (`exists_body_of_meter_eq_ok`). What a question asks about sections that the pass does not
touch has the same answer before and after it (`findSome?_sections_prepared`), and the signature of
a body is the same while start costs are computed and in the metered module
(`signatureOf?_metered`).
-/

set_option autoImplicit false

namespace WasmMeter.MeterOptions

variable {β : Type}

/-! ### Sections that stay -/

/-- A module stays as it is, or an empty section of a kind is inserted, of which it has none. -/
theorem ensure_eq_self_or (id : SectionId) (m : Module) :
    (m.ensure id = m ∧ (Section.empty? id = none ∨ m.has id = true)) ∨
      ∃ s, Section.empty? id = some s ∧ m.has id = false ∧ m.ensure id = m.insert s := by
  unfold Module.ensure
  by_cases hhas : m.has id = true
  · rw [if_pos hhas]
    exact .inl ⟨rfl, .inr hhas⟩
  · rw [if_neg hhas]
    cases Section.empty? id with
    | none => exact .inl ⟨rfl, .inl rfl⟩
    | some s => exact .inr ⟨s, rfl, Bool.not_eq_true _ |>.mp hhas, rfl⟩

theorem findSome?_sections_ensure {query : Section → Option β} {id : SectionId}
    (h : ∀ s ∈ Section.empty? id, query s = none) (m : Module) :
    (m.ensure id).sections.findSome? query = m.sections.findSome? query := by
  rcases ensure_eq_self_or id m with ⟨hself, -⟩ | ⟨s, hempty, -, hinsert⟩
  · rw [hself]
  · rw [hinsert]
    exact Module.findSome?_insertInto_of_none (h s hempty) m.sections

theorem findSome?_sections_withSections {query : Section → Option β}
    (htypes : query (.types []) = none) (himports : query (.imports []) = none) (m : Module) :
    (withSections m).sections.findSome? query = m.sections.findSome? query := by
  rw [withSections, findSome?_sections_ensure (by rintro s ⟨⟩; exact himports),
    findSome?_sections_ensure (by rintro s ⟨⟩; exact htypes)]

theorem findSome?_sections_addType {query : Section → Option β}
    (h : ∀ entries, query (.types entries) = none) (type : FuncType) (m : Module) :
    (m.addType type).sections.findSome? query = m.sections.findSome? query :=
  findSome?_replaceFirst_map_of_none Section.types? (fun s _ hs ↦ by cases s <;> cases hs; rfl)
    h _ m.sections

theorem findSome?_sections_addImport {query : Section → Option β}
    (h : ∀ entries, query (.imports entries) = none) (entry : Import) (m : Module) :
    (m.addImport entry).sections.findSome? query = m.sections.findSome? query :=
  findSome?_replaceFirst_map_of_none Section.imports? (fun s _ hs ↦ by cases s <;> cases hs; rfl)
    h _ m.sections

/-- A question about sections other than those with signatures and imports. -/
theorem findSome?_sections_withImport {query : Section → Option β}
    (htypes : ∀ entries, query (.types entries) = none)
    (himports : ∀ entries, query (.imports entries) = none) (options : MeterOptions) (m : Module) :
    (options.withImport (withSections m)).sections.findSome? query =
      m.sections.findSome? query := by
  rw [withImport, findSome?_sections_addImport himports, findSome?_sections_addType htypes,
    findSome?_sections_withSections (htypes []) (himports [])]

/-- A question about sections in front of which the pass does nothing. -/
theorem findSome?_sections_prepared {query : Section → Option β}
    (htypes : ∀ entries, query (.types entries) = none)
    (himports : ∀ entries, query (.imports entries) = none)
    (hexports : ∀ entries, query (.exports entries) = none)
    (helements : ∀ segments, query (.elements segments) = none)
    (hstart : ∀ index, query (.start index) = none) (options : MeterOptions) (m : Module) :
    (options.prepared m).sections.findSome? query = m.sections.findSome? query := by
  rw [prepared, Module.findSome?_sections_shifted hexports helements hstart,
    findSome?_sections_withImport htypes himports]

theorem code?_prepared (options : MeterOptions) (m : Module) :
    (options.prepared m).code? = m.code? :=
  findSome?_sections_prepared (fun _ ↦ rfl) (fun _ ↦ rfl) (fun _ ↦ rfl) (fun _ ↦ rfl)
    (fun _ ↦ rfl) options m

theorem functions?_prepared (options : MeterOptions) (m : Module) :
    (options.prepared m).functions? = m.functions? :=
  findSome?_sections_prepared (fun _ ↦ rfl) (fun _ ↦ rfl) (fun _ ↦ rfl) (fun _ ↦ rfl)
    (fun _ ↦ rfl) options m

/-! ### Imports and signatures -/

/-- A module without a section of a kind gets an empty one. -/
theorem findSome?_sections_ensure_self (query : Section → Option β) {id : SectionId} {s : Section}
    {b : β} (hquery : ∀ s, (query s).isSome = (s.id == id)) (hempty : Section.empty? id = some s)
    (hs : query s = some b) (m : Module) :
    (m.ensure id).sections.findSome? query = some ((m.sections.findSome? query).getD b) := by
  have hhas : (m.sections.findSome? query).isSome = m.has id := by
    rw [List.isSome_findSome?, Module.has]
    exact congrArg m.sections.any (funext hquery)
  rcases ensure_eq_self_or id m with ⟨hself, hnone | hfound⟩ | ⟨_, hinserted, hmissing, hinsert⟩
  · rw [hempty] at hnone
    cases hnone
  · rw [hfound, Option.isSome_iff_exists] at hhas
    obtain ⟨found, hfound⟩ := hhas
    rw [hself, hfound]
    rfl
  · rw [hempty, Option.some_inj] at hinserted
    subst hinserted
    rw [hmissing, Option.isSome_eq_false_iff, Option.isNone_iff_eq_none] at hhas
    rw [hinsert, hhas]
    exact Module.findSome?_insertInto_of_some hs hhas

theorem imports?_withSections (m : Module) :
    (withSections m).imports? = some (m.imports?.getD []) := by
  have htypes : (m.ensure .type).imports? = m.imports? :=
    findSome?_sections_ensure (by rintro s ⟨⟩; rfl) m
  rw [← htypes]
  exact findSome?_sections_ensure_self Section.imports? (fun s ↦ by cases s <;> rfl) rfl rfl _

/-- The imports in front of the metering function are those of the module itself. -/
theorem meterIndexOf_eq (m : Module) : meterIndexOf m = UInt32.ofNat m.importedFunctions := by
  unfold meterIndexOf Module.importedFunctions
  rw [imports?_withSections, Option.getD_some]

/-- The index of the metering function is the number of imported functions, if this is an index. -/
theorem toNat_meterIndexOf_of_lt {m : Module} (h : m.importedFunctions < UInt32.size) :
    (meterIndexOf m).toNat = m.importedFunctions := by
  rw [meterIndexOf_eq]
  exact UInt32.toNat_ofNat_of_lt' h

theorem toNat_meterIndexOf {m : Module} (h : (m.imports?.getD []).length < 2 ^ 32 - 1) :
    (meterIndexOf m).toNat = m.importedFunctions := by
  have hle : m.importedFunctions ≤ (m.imports?.getD []).length := List.countP_le_length
  exact toNat_meterIndexOf_of_lt (lt_of_le_of_lt hle (lt_trans h (by decide)))

theorem types?_withSections (m : Module) :
    (withSections m).types? = some (m.types?.getD []) := by
  have himports : (withSections m).types? = (m.ensure .type).types? :=
    findSome?_sections_ensure (by rintro s ⟨⟩; rfl) (m.ensure .type)
  rw [himports]
  exact findSome?_sections_ensure_self Section.types? (fun s ↦ by cases s <;> rfl) rfl rfl m

/-- The signature of the metering function stands behind the others. -/
theorem types?_prepared (options : MeterOptions) (m : Module) :
    (options.prepared m).types? = some (m.types?.getD [] ++ [options.signature]) := by
  have hshifted : (options.prepared m).types? = (options.withImport (withSections m)).types? :=
    Module.findSome?_sections_shifted (fun _ ↦ rfl) (fun _ ↦ rfl) (fun _ ↦ rfl) _ _
  have himport : (options.withImport (withSections m)).types? =
      ((withSections m).addType options.signature).types? :=
    findSome?_sections_addImport (fun _ ↦ rfl) _ _
  have htype : ((withSections m).addType options.signature).types? =
      (withSections m).types?.map (· ++ [options.signature]) :=
    findSome?_replaceFirst_map Section.types? (fun _ ↦ rfl) _ _
  rw [hshifted, himport, htype, types?_withSections]
  rfl

/-- The metering function stands behind the other imports. -/
theorem imports?_prepared (options : MeterOptions) (m : Module) :
    (options.prepared m).imports? =
      some (m.imports?.getD [] ++ [options.meterImport (withSections m)]) := by
  have hshifted : (options.prepared m).imports? = (options.withImport (withSections m)).imports? :=
    Module.findSome?_sections_shifted (fun _ ↦ rfl) (fun _ ↦ rfl) (fun _ ↦ rfl) _ _
  have htype : ((withSections m).addType options.signature).imports? = (withSections m).imports? :=
    findSome?_sections_addType (fun _ ↦ rfl) _ _
  have himport : (options.withImport (withSections m)).imports? =
      ((withSections m).addType options.signature).imports?.map
        (· ++ [options.meterImport (withSections m)]) :=
    findSome?_replaceFirst_map Section.imports? (fun _ ↦ rfl) _ _
  rw [hshifted, himport, htype, imports?_withSections]
  rfl

/-- A question about sections other than those with bodies. -/
theorem findSome?_sections_metered {query : Section → Option β}
    (h : ∀ bodies, query (.code bodies) = none) (options : MeterOptions) (m : Module) :
    (options.metered m).sections.findSome? query =
      (options.prepared m).sections.findSome? query :=
  findSome?_replaceFirst_map_of_none Section.code? (fun s _ hs ↦ by cases s <;> cases hs; rfl)
    h _ _

/-- The signature of a body, after the pass as it was when its start cost was computed. -/
theorem signatureOf?_metered (options : MeterOptions) (m : Module) (body : Nat) :
    signatureOf? (options.metered m) body = signatureOf? (options.prepared m) body := by
  have htypes : (options.metered m).types? = (options.prepared m).types? :=
    findSome?_sections_metered (fun _ ↦ rfl) options m
  have hfunctions : (options.metered m).functions? = (options.prepared m).functions? :=
    findSome?_sections_metered (fun _ ↦ rfl) options m
  unfold signatureOf?
  rw [htypes, hfunctions]

/-- A body that had a signature has the same one while start costs are computed. -/
theorem signatureOf?_prepared {options : MeterOptions} {m : Module} {body : Nat}
    {signature : FuncType} (h : signatureOf? m body = some signature) :
    signatureOf? (options.prepared m) body = some signature := by
  unfold signatureOf? at h ⊢
  rw [functions?_prepared, types?_prepared]
  obtain ⟨functions, hfunctions, hlater⟩ := Option.bind_eq_some_iff.mp h
  obtain ⟨typeIndex, htypeIndex, htypes⟩ := Option.bind_eq_some_iff.mp hlater
  obtain ⟨types, htypes, hsignature⟩ := Option.bind_eq_some_iff.mp htypes
  refine Option.bind_eq_some_iff.mpr ⟨functions, hfunctions,
    Option.bind_eq_some_iff.mpr ⟨typeIndex, htypeIndex, ?_⟩⟩
  rw [htypes, Option.getD_some]
  obtain ⟨hbound, -⟩ := List.getElem?_eq_some_iff.mp hsignature
  exact (List.getElem?_append_left hbound).trans hsignature

/-- A body that had a signature keeps it. -/
theorem signatureOf?_of_meter_eq_ok {options : MeterOptions} {m m' : Module}
    (h : m.meter options = .ok m') {body : Nat} {signature : FuncType}
    (hsignature : signatureOf? m body = some signature) :
    signatureOf? m' body = some signature := by
  rw [Module.meter_eq, outcome_eq_ok_iff] at h
  obtain ⟨-, rfl⟩ := h
  rw [signatureOf?_metered, signatureOf?_prepared hsignature]

/-! ### Bodies -/

/-- The bodies of the first code section, behind their charges. -/
def meteredBodies (options : MeterOptions) (m : Module) : List FunctionBody :=
  (options.costedBodies (options.prepared m)).map (options.paidBody (meterIndexOf m))

theorem code?_metered_eq_map_const (options : MeterOptions) (m : Module) :
    (options.metered m).code? = m.code?.map fun _ ↦ options.meteredBodies m := by
  rw [← code?_prepared options m]
  exact findSome?_replaceFirst_map Section.code? (fun _ ↦ rfl) _ _

/-- The bodies of the first code section after the pass. -/
theorem code?_metered (options : MeterOptions) (m : Module) :
    (options.metered m).code? = m.code?.map fun bodies ↦ bodies.zipIdx.map fun body ↦
      options.paidBody (meterIndexOf m) (body.1, options.startCost (options.prepared m) body) := by
  rw [code?_metered_eq_map_const, meteredBodies, costedBodies, code?_prepared]
  cases m.code? with
  | none => rfl
  | some bodies =>
    rw [Option.getD_some, List.map_map]
    rfl

/-- What becomes of a body: its code is metered, and starts with the cost of its signature and its
locals. -/
theorem exists_body_of_meter_eq_ok {options : MeterOptions} {m m' : Module}
    (h : m.meter options = .ok m') {bodies bodies' : List FunctionBody}
    (hbodies : m.code? = some bodies) (hbodies' : m'.code? = some bodies') {index : Nat}
    {body : FunctionBody} (hbody : bodies[index]? = some body) :
    ∃ signature startCost,
      signatureOf? m' index = some signature ∧
      startCost = saturatingAdd (options.costTable.signatureCost signature)
        (options.costTable.localsCost body.locals) ∧
      options.blocksError? (meterIndexOf m) startCost (blocks body.code) = none ∧
      bodies'[index]? = some
        { body with code := options.paidBlocks (meterIndexOf m) startCost (blocks body.code) } := by
  rw [Module.meter_eq, outcome_eq_ok_iff] at h
  obtain ⟨herror, rfl⟩ := h
  have hindexed : bodies.zipIdx[index]? = some (body, index) := by
    rw [List.getElem?_zipIdx, hbody, Nat.zero_add]
    rfl
  have hmem := List.mem_of_getElem? hindexed
  obtain ⟨-, herror⟩ := Option.or_eq_none_iff.mp herror
  obtain ⟨-, herror⟩ := Option.or_eq_none_iff.mp herror
  obtain ⟨hsignatures, herror⟩ := Option.or_eq_none_iff.mp herror
  rw [costedBodies, code?_prepared, hbodies, Option.getD_some, List.findSome?_map] at herror
  rw [code?_prepared, hbodies, Option.getD_some] at hsignatures
  have hsignature := List.findSome?_eq_none_iff.mp hsignatures _ hmem
  have hbodyError := List.findSome?_eq_none_iff.mp herror _ hmem
  obtain ⟨signature, hfound⟩ : ∃ signature,
      signatureOf? (options.prepared m) index = some signature := by
    unfold signatureError? at hsignature
    split at hsignature
    · next hsome => exact Option.isSome_iff_exists.mp hsome
    · cases hsignature
  have hstart : options.startCost (options.prepared m) (body, index) =
      saturatingAdd (options.costTable.signatureCost signature)
        (options.costTable.localsCost body.locals) := by
    rw [startCost, hfound]
    rfl
  refine ⟨signature, options.startCost (options.prepared m) (body, index), ?_, hstart, hbodyError,
    ?_⟩
  · rw [signatureOf?_metered, hfound]
  · rw [code?_metered, hbodies, Option.map_some] at hbodies'
    cases hbodies'
    rw [List.getElem?_map, hindexed]
    rfl

theorem length_code?_of_meter_eq_ok {options : MeterOptions} {m m' : Module}
    (h : m.meter options = .ok m') : m'.code?.map List.length = m.code?.map List.length := by
  rw [Module.meter_eq, outcome_eq_ok_iff] at h
  obtain ⟨-, rfl⟩ := h
  rw [code?_metered]
  cases m.code? with
  | none => rfl
  | some bodies => simp

end WasmMeter.MeterOptions
