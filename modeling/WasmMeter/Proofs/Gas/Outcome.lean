import Std.Data.HashMap.Lemmas
import WasmMeter.Proofs.Gas.Statement

/-!
# Outcomes of the pass

What a step of the pass comes to is told by an error that there may be, and by the result that it
has without one: `outcome error? result`. The errors of consecutive steps are tried in turn
(`outcome_bind`), so the first one counts.

A step that looks statements up in a memo has the same outcome with every memo that is `Sound`,
which is one that remembers true listings only, and leaves a sound memo behind (`MeterM.ComesTo`).
-/

set_option autoImplicit false

namespace WasmMeter

variable {α β : Type}

/-! ### Outcomes -/

/-- The error, if there is one, and the result otherwise. -/
def outcome (error? : Option MeteringError) (result : α) : Except MeteringError α :=
  error?.elim (.ok result) .error

@[simp]
theorem outcome_none (result : α) : outcome none result = .ok result := rfl

@[simp]
theorem outcome_some (error : MeteringError) (result : α) :
    outcome (some error) result = .error error := rfl

theorem outcome_eq_ok_iff {error? : Option MeteringError} {result a : α} :
    outcome error? result = .ok a ↔ error? = none ∧ result = a := by
  cases error? <;> simp

theorem outcome_eq_error_iff {error? : Option MeteringError} {result : α} {error : MeteringError} :
    outcome error? result = .error error ↔ error? = some error := by
  cases error? <;> simp

theorem outcome_map (f : α → β) (error? : Option MeteringError) (result : α) :
    (outcome error? result).map f = outcome error? (f result) := by
  cases error? <;> rfl

/-- The error of the first step counts, then that of the second. -/
theorem outcome_bind {first? later? : Option MeteringError} {a : α} {b : β}
    {f : α → Except MeteringError β} (hf : f a = outcome later? b) :
    (outcome first? a >>= f) = outcome (first?.or later?) b := by
  cases first? with
  | none => exact hf
  | some error => rfl

/-- The elements of a list are treated in turn, so the error of the first one that has one
counts. -/
theorem mapM_eq_outcome {f : α → Except MeteringError β} {error? : α → Option MeteringError}
    {result : α → β} (hf : ∀ a, f a = outcome (error? a) (result a)) (list : List α) :
    list.mapM f = outcome (list.findSome? error?) (list.map result) := by
  induction list with
  | nil => rfl
  | cons a later ih =>
    rw [List.mapM_cons, hf, List.findSome?_cons, List.map_cons]
    have hlater : (do
        let rest ← later.mapM f
        pure (result a :: rest)) =
        outcome (later.findSome? error?) (result a :: later.map result) := by
      rw [ih]
      exact outcome_map (result a :: ·) _ _
    refine (outcome_bind (f := fun b ↦ later.mapM f >>= fun rest ↦ pure (b :: rest))
      hlater).trans ?_
    cases error? a <;> rfl

/-! ### Steps -/

/-- A memo that remembers true listings only. -/
def Memo.Sound (memo : Memo) : Prop :=
  ∀ text code, memo.known[text]? = some code → Listing.parse text = .ok code

theorem Memo.sound_empty : Memo.empty.Sound := by
  intro text code h
  simp [Memo.empty] at h

/-- A listing that was read may be remembered. -/
theorem Memo.Sound.insert {memo : Memo} (hmemo : memo.Sound) {text : String}
    {code : List Instruction} (hparse : Listing.parse text = .ok code) :
    Memo.Sound ⟨memo.known.insert text code⟩ := by
  intro other remembered h
  rw [Std.HashMap.getElem?_insert] at h
  split at h
  · next heq =>
    cases h
    rwa [← beq_iff_eq.mp heq]
  · exact hmemo other remembered h

namespace MeterM

/-- With every sound memo the step has the outcome, and it leaves a sound memo. -/
def ComesTo (step : MeterM α) (result : Except MeteringError α) : Prop :=
  ∀ memo, memo.Sound → ∃ left, left.Sound ∧ step memo = ofExcept result left

theorem ComesTo.ofExcept (result : Except MeteringError α) : ComesTo (ofExcept result) result :=
  fun memo hmemo ↦ ⟨memo, hmemo, rfl⟩

theorem ComesTo.pure (a : α) : ComesTo (pure a) (.ok a) := fun memo hmemo ↦ ⟨memo, hmemo, rfl⟩

/-- A step that goes on depending on the result of another one. -/
theorem ComesTo.bind {first : MeterM α} {later : α → MeterM β} {result : Except MeteringError α}
    {f : α → Except MeteringError β} (hfirst : ComesTo first result)
    (hlater : ∀ a, result = .ok a → ComesTo (later a) (f a)) :
    ComesTo (first >>= later) (result >>= f) := by
  intro memo hmemo
  obtain ⟨mid, hmid, hstep⟩ := hfirst memo hmemo
  cases result with
  | error error =>
    refine ⟨mid, hmid, ?_⟩
    show EStateM.bind first later memo = .error error mid
    rw [EStateM.bind, hstep]
    rfl
  | ok a =>
    obtain ⟨left, hleft, hrest⟩ := hlater a rfl mid hmid
    refine ⟨left, hleft, ?_⟩
    show EStateM.bind first later memo = MeterM.ofExcept (f a) left
    rw [EStateM.bind, hstep]
    exact hrest

/-- Two steps of which the outcomes are known. -/
theorem ComesTo.bind_outcome {first : MeterM α} {later : α → MeterM β}
    {first? later? : Option MeteringError} {a : α} {b : β}
    (hfirst : ComesTo first (outcome first? a)) (hlater : ComesTo (later a) (outcome later? b)) :
    ComesTo (first >>= later) (outcome (first?.or later?) b) := by
  rw [← outcome_bind (f := fun _ ↦ outcome later? b) rfl]
  refine hfirst.bind fun c hc ↦ ?_
  obtain ⟨-, rfl⟩ := outcome_eq_ok_iff.mp hc
  exact hlater

/-- A step that is followed by no other one. -/
theorem ComesTo.bind_pure {first : MeterM α} {error? : Option MeteringError} {a : α} (f : α → β)
    (hfirst : ComesTo first (outcome error? a)) :
    ComesTo (first >>= fun a ↦ Pure.pure (f a)) (outcome error? (f a)) := by
  have hpure : ComesTo (Pure.pure (f a)) (outcome none (f a)) := .pure (f a)
  have hboth : ComesTo (first >>= fun a ↦ Pure.pure (f a)) (outcome (error?.or none) (f a)) :=
    hfirst.bind_outcome hpure
  rwa [Option.or_none] at hboth

end MeterM

/-! ### Statements -/

namespace MeterOptions

/-- A listing is read as what it is, whether it is remembered or not. -/
theorem read_comesTo {text : String} {code : List Instruction}
    (hparse : Listing.parse text = .ok code) : MeterM.ComesTo (read text) (.ok code) := by
  intro memo hmemo
  unfold read Memo.parse
  cases hknown : memo.known[text]? with
  | some remembered =>
    -- What is remembered was read from the same text.
    have htrue := hmemo text remembered hknown
    rw [hparse] at htrue
    cases htrue
    exact ⟨memo, hmemo, rfl⟩
  | none =>
    refine ⟨_, hmemo.insert hparse, ?_⟩
    simp only [hparse]
    rfl

/-- Why a cost cannot be charged. -/
def limitError? (options : MeterOptions) (cost : UInt64) : Option MeteringError :=
  if options.limit?.any fun limit ↦ limit < cost.toNat then
    some (.costOverflow cost options.meterType)
  else none

theorem limitError?_eq_none_iff {options : MeterOptions} {cost : UInt64} :
    options.limitError? cost = none ↔ ∀ limit ∈ options.limit?, cost.toNat ≤ limit := by
  unfold limitError?
  cases options.limit? <;> simp

/-- A cost is charged, unless it is past the limit. -/
theorem statement_comesTo (options : MeterOptions) (cost : UInt64) (meterIndex : UInt32) :
    MeterM.ComesTo (options.statement cost meterIndex)
      (outcome (options.limitError? cost) (options.charge cost.toNat meterIndex)) := by
  unfold statement
  split
  · next hover =>
    rw [limitError?, if_pos hover]
    exact .ofExcept _
  · next hwithin =>
    have hnone : options.limitError? cost = none := if_neg hwithin
    rw [hnone]
    exact read_comesTo (Listing.parse_statementText (limitError?_eq_none_iff.mp hnone))

/-- What a statement costs: its constant and its call. -/
def chargeCost (options : MeterOptions) : UInt64 := options.costTable.codeCost (options.charge 0 0)

theorem overhead_comesTo (options : MeterOptions) :
    MeterM.ComesTo options.overhead (.ok options.chargeCost) := by
  have hparse : Listing.parse (options.statementText 0 0) = .ok (options.charge 0 0) :=
    Listing.parse_statementText fun limit _ ↦ Nat.zero_le limit
  exact (read_comesTo hparse).bind (f := fun code ↦ .ok (options.costTable.codeCost code))
    fun code _ ↦ .pure _

end MeterOptions

end WasmMeter
