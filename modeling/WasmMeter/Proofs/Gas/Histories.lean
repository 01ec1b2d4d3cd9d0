import Mathlib.Data.List.Dedup
import Mathlib.Data.List.DropRight
import WasmMeter.Proofs.Gas.Pass

/-!
# Memos do not show

A memo has a history: texts that were parsed with it, successfully or not, and times at which it was
cleared. Whatever it was, a text is parsed as it is with a memo that has no history, and the only
trace is the number of listings that are kept, which is the number of distinct texts that were
parsed successfully since the memo was cleared last. What carries this is that the memo `Keeps` true
listings of exactly these texts (`Memo.keeps_after`).

A pass that has metered modules before, or has failed to, has a memo behind it that is sound, and
so it meters the next module as a pass does that has metered none (`Metering.sound_after`).
-/

set_option autoImplicit false

namespace WasmMeter

namespace Memo

/-! ### Calls -/

/-- What is asked of a memo. -/
inductive Call
  | parse (text : String)
  | clear
  deriving DecidableEq, Repr

/-- The answer to a call, which a memo that is cleared does not give, and the memo behind it. -/
def perform (memo : Memo) : Call → Option (Except ListingError (List Instruction)) × Memo
  | .parse text =>
    match Memo.parse text memo with
    | .ok code left => (some (.ok code), left)
    | .error e left => (some (.error e), left)
  | .clear => (none, memo.clear)

/-- The memo behind calls, of which the first one met the memo of no listing. -/
def after (calls : List Call) : Memo := calls.foldl (fun memo call ↦ (memo.perform call).2) .empty

/-- The text that is parsed successfully by a call. -/
def Call.listing? : Call → Option String
  | .parse text => if (Listing.parse text).isOk then some text else none
  | .clear => none

/-- The texts that were parsed successfully since the memo was cleared last, in their order. -/
def listingsSinceClear (calls : List Call) : List String :=
  (calls.rtakeWhile (· ≠ .clear)).filterMap Call.listing?

theorem after_concat (calls : List Call) (call : Call) :
    after (calls ++ [call]) = ((after calls).perform call).2 :=
  List.foldl_concat _ _ call calls

theorem listingsSinceClear_concat_clear (calls : List Call) :
    listingsSinceClear (calls ++ [.clear]) = [] := by
  rw [listingsSinceClear, List.rtakeWhile_concat]
  rfl

theorem listingsSinceClear_concat_parse (calls : List Call) (text : String) :
    listingsSinceClear (calls ++ [.parse text]) =
      listingsSinceClear calls ++ (Call.listing? (.parse text)).toList := by
  rw [listingsSinceClear, List.rtakeWhile_concat, if_pos (by simp), List.filterMap_append]
  rfl

/-! ### What a memo keeps -/

/-- The memo keeps true listings, of the texts that are in the list. -/
structure Keeps (memo : Memo) (texts : List String) : Prop where
  sound : memo.Sound
  mem_iff : ∀ text, text ∈ memo.known ↔ text ∈ texts

theorem keeps_empty : Keeps .empty [] :=
  ⟨sound_empty, fun _ ↦ iff_of_false Std.HashMap.not_mem_empty List.not_mem_nil⟩

/-- Texts that repeat are kept once. -/
theorem Keeps.size_eq {memo : Memo} {texts : List String} (h : memo.Keeps texts) :
    memo.size = texts.dedup.length := by
  have hperm : memo.known.keys.Perm texts.dedup := by
    rw [List.perm_ext_iff_of_nodup Std.HashMap.nodup_keys texts.nodup_dedup]
    intro text
    rw [Std.HashMap.mem_keys, List.mem_dedup]
    exact h.mem_iff text
  rw [size, ← Std.HashMap.length_keys]
  exact hperm.length_eq

theorem perform_parse_of_known {memo : Memo} {text : String} {code : List Instruction}
    (hknown : memo.known[text]? = some code) :
    memo.perform (.parse text) = (some (.ok code), memo) := by
  simp only [perform, Memo.parse, hknown]

theorem perform_parse_of_ok {memo : Memo} {text : String} {code : List Instruction}
    (hknown : memo.known[text]? = none) (hparse : Listing.parse text = .ok code) :
    memo.perform (.parse text) = (some (.ok code), ⟨memo.known.insert text code⟩) := by
  simp only [perform, Memo.parse, hknown, hparse]

theorem perform_parse_of_error {memo : Memo} {text : String} {error : ListingError}
    (hknown : memo.known[text]? = none) (hparse : Listing.parse text = .error error) :
    memo.perform (.parse text) = (some (.error error), memo) := by
  simp only [perform, Memo.parse, hknown, hparse]

theorem listing?_of_ok {text : String} {code : List Instruction}
    (hparse : Listing.parse text = .ok code) : Call.listing? (.parse text) = some text := by
  rw [Call.listing?, hparse]
  rfl

theorem listing?_of_error {text : String} {error : ListingError}
    (hparse : Listing.parse text = .error error) : Call.listing? (.parse text) = none := by
  rw [Call.listing?, hparse]
  rfl

/-- A text is parsed as what it is, and kept if it is a listing. -/
theorem Sound.perform_parse {memo : Memo} (h : memo.Sound) (text : String) :
    (memo.perform (.parse text)).1 = some (Listing.parse text) ∧
      (memo.perform (.parse text)).2.Sound ∧
      ∀ other, other ∈ (memo.perform (.parse text)).2.known ↔
        other ∈ memo.known ∨ Call.listing? (.parse text) = some other := by
  cases hknown : memo.known[text]? with
  | some code =>
    -- What is kept was read from the text, so that nothing is added.
    have hparse := h text code hknown
    have hmem : text ∈ memo.known :=
      Std.HashMap.mem_iff_isSome_getElem?.mpr (by rw [hknown]; rfl)
    rw [perform_parse_of_known hknown, hparse, listing?_of_ok hparse]
    refine ⟨rfl, h, fun other ↦ ⟨.inl, ?_⟩⟩
    rintro (hother | heq)
    · exact hother
    · exact Option.some_inj.mp heq ▸ hmem
  | none =>
    cases hparse : Listing.parse text with
    | error error =>
      rw [perform_parse_of_error hknown hparse, listing?_of_error hparse]
      exact ⟨rfl, h, fun other ↦ (or_iff_left nofun).symm⟩
    | ok code =>
      rw [perform_parse_of_ok hknown hparse, listing?_of_ok hparse]
      refine ⟨rfl, h.insert hparse, fun other ↦ ?_⟩
      rw [Std.HashMap.mem_insert, beq_iff_eq, Option.some_inj]
      exact or_comm

/-- The answer to a call does not depend on what is kept. -/
theorem Sound.perform_fst {memo : Memo} (h : memo.Sound) (call : Call) :
    (memo.perform call).1 = (Memo.empty.perform call).1 := by
  cases call with
  | parse text => rw [(h.perform_parse text).1, (sound_empty.perform_parse text).1]
  | clear => rfl

/-- A call keeps the text that it parses successfully, or forgets all. -/
theorem Keeps.perform {memo : Memo} {calls : List Call} (h : memo.Keeps (listingsSinceClear calls))
    (call : Call) : (memo.perform call).2.Keeps (listingsSinceClear (calls ++ [call])) := by
  cases call with
  | clear =>
    rw [listingsSinceClear_concat_clear]
    exact keeps_empty
  | parse text =>
    obtain ⟨-, hsound, hmem⟩ := h.sound.perform_parse text
    refine ⟨hsound, fun other ↦ ?_⟩
    rw [hmem, h.mem_iff, listingsSinceClear_concat_parse, List.mem_append, Option.mem_toList]

/-- After any calls a memo keeps the listings that were read since it was cleared last. -/
theorem keeps_after (calls : List Call) : (after calls).Keeps (listingsSinceClear calls) := by
  induction calls using List.reverseRecOn with
  | nil => exact keeps_empty
  | append_singleton calls call ih =>
    rw [after_concat]
    exact ih.perform call

end Memo

/-! ### Passes -/

namespace Metering

/-- The pass behind modules that it has metered, or has failed to meter, one after another. -/
def after (options : MeterOptions) (modules : List Module) : Metering :=
  modules.foldl (fun metering m ↦ (metering.meter m).2) (new options)

theorem after_concat (options : MeterOptions) (modules : List Module) (m : Module) :
    after options (modules ++ [m]) = ((after options modules).meter m).2 :=
  List.foldl_concat _ _ m modules

/-- With a sound memo a module is metered as it is without any, and the memo stays sound. -/
theorem meter_of_sound {metering : Metering} (h : metering.memo.Sound) (m : Module) :
    ∃ left : Memo, left.Sound ∧
      metering.meter m = (m.meter metering.options, { metering with memo := left }) := by
  obtain ⟨left, hleft, hstep⟩ := metering.options.meterModule_comesTo m metering.memo h
  refine ⟨left, hleft, ?_⟩
  rw [meter, hstep, Module.meter_eq]
  cases outcome (metering.options.meterError? m) (metering.options.metered m) <;> rfl

/-- A pass keeps its options and the soundness of its memo. -/
theorem sound_after (options : MeterOptions) (modules : List Module) :
    (after options modules).options = options ∧ (after options modules).memo.Sound := by
  induction modules using List.reverseRecOn with
  | nil => exact ⟨rfl, Memo.sound_empty⟩
  | append_singleton modules m ih =>
    obtain ⟨left, hleft, hmeter⟩ := meter_of_sound ih.2 m
    rw [after_concat, hmeter]
    exact ⟨ih.1, hleft⟩

end Metering

/-- No answer depends on what was asked before. A memo answers every call as the memo of no listing
does, whatever it was asked to parse and whenever it was cleared, and it keeps each text once that
was parsed successfully since then. A pass meters every module as a new pass of the same options
does, whatever modules came before and whether they were metered or not. -/
theorem Memo.invisible :
    (∀ (calls : List Memo.Call) (call : Memo.Call),
      ((Memo.after calls).perform call).1 = (Memo.empty.perform call).1) ∧
    (∀ calls : List Memo.Call,
      (Memo.after calls).size = (Memo.listingsSinceClear calls).dedup.length) ∧
    ∀ (options : MeterOptions) (modules : List Module) (m : Module),
      ((Metering.after options modules).meter m).1 = ((Metering.new options).meter m).1 := by
  refine ⟨fun calls call ↦ ?_, fun calls ↦ ?_, fun options modules m ↦ ?_⟩
  · exact (Memo.keeps_after calls).sound.perform_fst call
  · exact (Memo.keeps_after calls).size_eq
  · obtain ⟨hoptions, hsound⟩ := Metering.sound_after options modules
    obtain ⟨left, -, hmeter⟩ := Metering.meter_of_sound hsound m
    rw [hmeter, hoptions]
    rfl

end WasmMeter
