import WasmMeter.Proofs.Binary.SectionDecoding
import WasmMeter.Proofs.Gas.Erasure

/-!
# Signatures behind the import

The pass looks up the signature of a body when the signature of the metering function stands behind
those of the module already (`signatureOf?_prepared_eq`). A body whose signature is not among those
of the module is an error, but for one index: the first one past them has become the index of the
signature of the metering function, and the body gets this one (`Module.meter_of_le_typeIndex`).
-/

set_option autoImplicit false

namespace WasmMeter

namespace MeterOptions

/-- The signature of the body of an index, among those of the module and the one of the metering
function behind them. -/
def signatureAfter? (options : MeterOptions) (m : Module) (body : Nat) : Option FuncType :=
  (m.functions?.getD [])[body]?.bind fun typeIndex ↦
    (m.types?.getD [] ++ [options.signature])[typeIndex.toNat]?

theorem signatureOf?_prepared_eq (options : MeterOptions) (m : Module) (body : Nat) :
    signatureOf? (options.prepared m) body = options.signatureAfter? m body := by
  unfold signatureOf? signatureAfter?
  rw [functions?_prepared, types?_prepared]
  cases m.functions? <;> rfl

theorem signatureOf?_eq_of_meter_eq_ok {options : MeterOptions} {m metered : Module}
    (h : m.meter options = .ok metered) (body : Nat) :
    signatureOf? metered body = options.signatureAfter? m body := by
  rw [Module.meter_eq, outcome_eq_ok_iff] at h
  rw [← h.2, signatureOf?_metered, signatureOf?_prepared_eq]

theorem signatureError?_of_eq_none {m : Module} {body : FunctionBody × Nat}
    (h : signatureOf? m body.2 = none) :
    signatureError? m body = some (.missingSignature body.2) := by
  rw [signatureError?, h]
  rfl

theorem signatureError?_of_ne_none {m : Module} {body : FunctionBody × Nat}
    (h : signatureOf? m body.2 ≠ none) : signatureError? m body = none :=
  if_pos (Option.isSome_iff_ne_none.mpr h)

/-- The first body without a signature is an error. -/
theorem findSome?_signatureError?_eq_some_iff {m : Module} {bodies : List FunctionBody}
    {index : Nat} {error : MeteringError} :
    (bodies.zipIdx index).findSome? (signatureError? m) = some error ↔
      ∃ body, index ≤ body ∧ body < index + bodies.length ∧ signatureOf? m body = none ∧
        (∀ earlier, index ≤ earlier → earlier < body → signatureOf? m earlier ≠ none) ∧
        error = .missingSignature body := by
  induction bodies generalizing index with
  | nil =>
    refine ⟨nofun, fun ⟨body, hfrom, hto, _⟩ ↦ ?_⟩
    exact absurd hto (Nat.not_lt.mpr hfrom)
  | cons first later ih =>
    rw [List.zipIdx_cons, List.findSome?_cons, List.length_cons]
    by_cases hfirst : signatureOf? m index = none
    · rw [signatureError?_of_eq_none hfirst]
      constructor
      · rintro ⟨⟩
        exact ⟨index, le_rfl, by omega, hfirst, fun earlier hfrom hto ↦ by omega, rfl⟩
      · rintro ⟨body, hfrom, -, -, hleast, rfl⟩
        rcases Nat.eq_or_lt_of_le hfrom with rfl | hlt
        · rfl
        · exact absurd hfirst (hleast index le_rfl hlt)
    · rw [signatureError?_of_ne_none hfirst]
      simp only
      rw [ih]
      constructor
      · rintro ⟨body, hfrom, hto, hnone, hleast, herror⟩
        refine ⟨body, by omega, by omega, hnone, fun earlier hearlier hlt ↦ ?_, herror⟩
        rcases Nat.eq_or_lt_of_le hearlier with rfl | hbehind
        · exact hfirst
        · exact hleast earlier hbehind hlt
      · rintro ⟨body, hfrom, hto, hnone, hleast, herror⟩
        have hne : index ≠ body := fun heq ↦ hfirst (heq ▸ hnone)
        exact ⟨body, by omega, by omega, hnone, fun earlier hearlier ↦ hleast earlier (by omega),
          herror⟩

/-- There is no error if every body has a signature. -/
theorem findSome?_signatureError?_eq_none_iff {m : Module} {bodies : List FunctionBody} :
    bodies.zipIdx.findSome? (signatureError? m) = none ↔
      ∀ body < bodies.length, signatureOf? m body ≠ none := by
  rw [List.findSome?_eq_none_iff]
  constructor
  · intro h body hbody hnone
    have hmem : (bodies[body], body) ∈ bodies.zipIdx :=
      List.mem_zipIdx_iff_getElem?.mpr (List.getElem?_eq_getElem hbody)
    have herror := h _ hmem
    rw [signatureError?_of_eq_none hnone] at herror
    cases herror
  · intro h body hmem
    have hbody := List.mem_zipIdx_iff_getElem?.mp hmem
    exact signatureError?_of_ne_none (h body.2 (List.getElem?_eq_some_iff.mp hbody).1)

/-- The pass finds the first body without a signature. -/
theorem findSome?_signatureError?_prepared_eq_some_iff {options : MeterOptions} {m : Module}
    {bodies : List FunctionBody} {error : MeteringError} :
    bodies.zipIdx.findSome? (signatureError? (options.prepared m)) = some error ↔
      ∃ body < bodies.length, options.signatureAfter? m body = none ∧
        (∀ earlier < body, options.signatureAfter? m earlier ≠ none) ∧
        error = .missingSignature body := by
  rw [findSome?_signatureError?_eq_some_iff]
  simp only [signatureOf?_prepared_eq, Nat.zero_le, true_and, Nat.zero_add, true_implies]

theorem findSome?_signatureError?_prepared_eq_none_iff {options : MeterOptions} {m : Module}
    {bodies : List FunctionBody} :
    bodies.zipIdx.findSome? (signatureError? (options.prepared m)) = none ↔
      ∀ body < bodies.length, options.signatureAfter? m body ≠ none := by
  rw [findSome?_signatureError?_eq_none_iff]
  simp only [signatureOf?_prepared_eq]

/-- Every body of a module that is metered has a signature. -/
theorem signatureAfter?_ne_none_of_meter_eq_ok {options : MeterOptions} {m metered : Module}
    (h : m.meter options = .ok metered) {body : Nat} (hbody : body < (m.code?.getD []).length) :
    options.signatureAfter? m body ≠ none := by
  rw [Module.meter_eq, outcome_eq_ok_iff] at h
  obtain ⟨-, herror⟩ := Option.or_eq_none_iff.mp h.1
  obtain ⟨-, herror⟩ := Option.or_eq_none_iff.mp herror
  obtain ⟨hsignatures, -⟩ := Option.or_eq_none_iff.mp herror
  rw [code?_prepared, findSome?_signatureError?_prepared_eq_none_iff] at hsignatures
  exact hsignatures body hbody

/-- Of the indices past the types of a module only the first one has a signature, which is that of
the metering function. -/
theorem signatureAfter?_of_le_typeIndex (options : MeterOptions) {m : Module} {body : Nat}
    {typeIndex : UInt32} (hentry : (m.functions?.getD [])[body]? = some typeIndex)
    (hpast : (m.types?.getD []).length ≤ typeIndex.toNat) :
    options.signatureAfter? m body =
      if typeIndex.toNat = (m.types?.getD []).length then some options.signature else none := by
  rw [signatureAfter?, hentry, Option.bind_some]
  by_cases hfirst : typeIndex.toNat = (m.types?.getD []).length
  · rw [if_pos hfirst, hfirst, List.getElem?_concat_length]
  · rw [if_neg hfirst, List.getElem?_eq_none_iff, List.length_append, List.length_singleton]
    omega

end MeterOptions

open MeterOptions

/-- A module with a body whose signature is not among its types is not metered, unless it is the
first index past them. Then the body has the signature of the metering function once the module is
metered. -/
theorem Module.meter_of_le_typeIndex {m : Module} {options : MeterOptions} {body : Nat}
    {typeIndex : UInt32} (hbody : body < (m.code?.getD []).length)
    (hentry : (m.functions?.getD [])[body]? = some typeIndex)
    (hpast : (m.types?.getD []).length ≤ typeIndex.toNat) :
    (∃ error, m.meter options = .error error) ∨
      typeIndex.toNat = (m.types?.getD []).length ∧
        ∃ metered, m.meter options = .ok metered ∧
          signatureOf? metered body = some options.signature := by
  have hsignature := signatureAfter?_of_le_typeIndex options hentry hpast
  cases hmeter : m.meter options with
  | error error => exact .inl ⟨error, rfl⟩
  | ok metered =>
    have hsome := signatureAfter?_ne_none_of_meter_eq_ok hmeter hbody
    by_cases hfirst : typeIndex.toNat = (m.types?.getD []).length
    · rw [if_pos hfirst] at hsignature
      refine .inr ⟨hfirst, metered, rfl, ?_⟩
      rw [signatureOf?_eq_of_meter_eq_ok hmeter, hsignature]
    · rw [if_neg hfirst] at hsignature
      exact absurd hsignature hsome

/-- A module with a body of a signature of which it has none. -/
def Module.untyped : Module :=
  ⟨.standard, [.functions [0], .code [⟨[], [⟨"end", none, none⟩]⟩]]⟩

/-- The bytes of `Module.untyped`. -/
def untypedBytes : Bytes :=
  [0x00, 0x61, 0x73, 0x6d, 0x01, 0x00, 0x00, 0x00, 0x03, 0x02, 0x01, 0x00, 0x0a, 0x04, 0x01, 0x02,
    0x00, 0x0b]

theorem Module.meter_of_le_typeIndex_untyped :
    0 < (untyped.code?.getD []).length ∧ (untyped.functions?.getD [])[0]? = some 0 ∧
      (untyped.types?.getD []).length ≤ (0 : UInt32).toNat ∧
      ((∃ error, untyped.meter .oneEach = .error error) ∨
        (0 : UInt32).toNat = (untyped.types?.getD []).length ∧
          ∃ metered, untyped.meter .oneEach = .ok metered ∧
            signatureOf? metered 0 = some MeterOptions.oneEach.signature) := by
  have hbody : 0 < (untyped.code?.getD []).length := by decide
  have hentry : (untyped.functions?.getD [])[0]? = some 0 := rfl
  have hpast : (untyped.types?.getD []).length ≤ (0 : UInt32).toNat := by decide
  exact ⟨hbody, hentry, hpast, meter_of_le_typeIndex hbody hentry hpast⟩

/-- A body without a signature gets the one of the metering function, and the module is metered. -/
theorem Module.adopts_meter :
    Module.decode untypedBytes = .ok untyped ∧ untyped.types? = none ∧
      signatureOf? untyped 0 = none ∧
      ∃ metered, untyped.meter .oneEach = .ok metered ∧
        metered.types? = some [.func [.i64] none] ∧
        signatureOf? metered 0 = some (.func [.i64] none) := by
  refine ⟨by decide +kernel, rfl, rfl, MeterOptions.oneEach.metered untyped, ?_, ?_, ?_⟩
  · rw [meter_eq]
    decide +kernel
  · decide +kernel
  · decide +kernel

end WasmMeter
