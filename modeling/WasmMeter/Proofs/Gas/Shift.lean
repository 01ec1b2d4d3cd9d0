import WasmMeter.Proofs.Gas.Outcome

/-!
# References behind the import

The import of the metering function takes an index, so references to functions from this index on
are shifted by one. No reference is shifted to the index itself (`shifted_ne`), and a shifted
reference can be shifted back (`unshifted_shifted`). The reference of a call is its callee
(`Instruction.callee?`), and nothing else of an instruction changes (`Instruction.mapCallee`).
-/

set_option autoImplicit false

namespace WasmMeter

/-! ### Indices -/

/-- The index of a function behind the import. -/
def shifted (meterIndex index : UInt32) : UInt32 := if index < meterIndex then index else index + 1

/-- The index in front of the import. -/
def unshifted (meterIndex index : UInt32) : UInt32 :=
  if meterIndex < index then index - 1 else index

/-- Why an index cannot be shifted. -/
def shiftError? (meterIndex index : UInt32) : Option MeteringError :=
  if index < meterIndex ∨ index.toNat + 1 < UInt32.size then none else some (.indexOverflow index)

theorem shiftIndex_eq (meterIndex index : UInt32) :
    shiftIndex meterIndex index =
      outcome (shiftError? meterIndex index) (shifted meterIndex index) := by
  unfold shiftIndex shiftError? shifted
  by_cases hbefore : index < meterIndex
  · rw [if_pos hbefore, if_pos (.inl hbefore), if_pos hbefore]
    rfl
  · rw [if_neg hbefore, if_neg hbefore]
    by_cases hroom : index.toNat + 1 < UInt32.size
    · rw [if_pos hroom, if_pos (.inr hroom)]
      rfl
    · rw [if_neg hroom, if_neg (not_or.mpr ⟨hbefore, hroom⟩)]
      rfl

/-- An index that is shifted moves up by one, and does not wrap. -/
theorem toNat_shifted {meterIndex index : UInt32} (h : shiftError? meterIndex index = none) :
    (shifted meterIndex index).toNat =
      if index.toNat < meterIndex.toNat then index.toNat else index.toNat + 1 := by
  unfold shifted
  by_cases hbefore : index < meterIndex
  · rw [if_pos hbefore, if_pos (UInt32.lt_iff_toNat_lt.mp hbefore)]
  · -- The largest index has no successor, but then there was an error.
    have hroom : index.toNat + 1 < UInt32.size := by
      by_contra hfull
      rw [shiftError?, if_neg (not_or.mpr ⟨hbefore, hfull⟩)] at h
      cases h
    rw [if_neg hbefore, if_neg fun hlt ↦ hbefore (UInt32.lt_iff_toNat_lt.mpr hlt),
      UInt32.toNat_add, UInt32.toNat_one]
    exact Nat.mod_eq_of_lt hroom

/-- No reference is shifted to the import. -/
theorem shifted_ne {meterIndex index : UInt32} (h : shiftError? meterIndex index = none) :
    shifted meterIndex index ≠ meterIndex := by
  intro heq
  have htoNat := toNat_shifted h
  rw [heq] at htoNat
  split at htoNat <;> omega

/-- A reference that was shifted can be shifted back. -/
theorem unshifted_shifted {meterIndex index : UInt32} (h : shiftError? meterIndex index = none) :
    unshifted meterIndex (shifted meterIndex index) = index := by
  have htoNat := toNat_shifted h
  unfold unshifted
  by_cases hbehind : meterIndex < shifted meterIndex index
  · have hlt := UInt32.lt_iff_toNat_lt.mp hbehind
    have hone : (1 : UInt32) ≤ shifted meterIndex index := by
      rw [UInt32.le_iff_toNat_le, UInt32.toNat_one]
      omega
    rw [if_pos hbehind, ← UInt32.toNat_inj, UInt32.toNat_sub_of_le _ _ hone, UInt32.toNat_one]
    split at htoNat <;> omega
  · have hle : (shifted meterIndex index).toNat ≤ meterIndex.toNat := by
      by_contra hlt
      exact hbehind (UInt32.lt_iff_toNat_lt.mpr (Nat.not_le.mp hlt))
    rw [if_neg hbehind, ← UInt32.toNat_inj]
    split at htoNat <;> omega

/-! ### Calls -/

namespace Instruction

/-- The function that a call calls. -/
def callee? (instruction : Instruction) : Option UInt32 :=
  match instruction.name, instruction.immediate with
  | "call", some (.varUint32 index) => some index
  | _, _ => none

theorem callee?_eq_some_iff {instruction : Instruction} {index : UInt32} :
    instruction.callee? = some index ↔
      instruction.name = "call" ∧ instruction.immediate = some (.varUint32 index) := by
  unfold callee?
  split
  · next called hname himmediate => simp [hname, himmediate]
  · next hother =>
    exact ⟨nofun, fun ⟨hname, himmediate⟩ ↦ (hother index hname himmediate).elim⟩

/-- The instruction with another callee; what is no call stays. -/
def mapCallee (f : UInt32 → UInt32) (instruction : Instruction) : Instruction :=
  match instruction.callee? with
  | some index => instruction.withImmediate (.varUint32 (f index))
  | none => instruction

@[simp]
theorem callee?_mapCallee (f : UInt32 → UInt32) (instruction : Instruction) :
    (instruction.mapCallee f).callee? = instruction.callee?.map f := by
  unfold mapCallee
  cases hcallee : instruction.callee? with
  | none => exact hcallee
  | some index =>
    have hcall := (callee?_eq_some_iff.mp hcallee).1
    exact callee?_eq_some_iff.mpr ⟨hcall, rfl⟩

/-- A change of the callee that another one undoes leaves no trace. -/
theorem mapCallee_mapCallee_of_inverse {f g : UInt32 → UInt32} {instruction : Instruction}
    (h : ∀ index ∈ instruction.callee?, g (f index) = index) :
    (instruction.mapCallee f).mapCallee g = instruction := by
  cases hcallee : instruction.callee? with
  | none =>
    have hkept : instruction.mapCallee f = instruction := by rw [mapCallee, hcallee]
    rw [hkept, mapCallee, hcallee]
  | some index =>
    have hcalled : (instruction.mapCallee f).callee? = some (f index) := by
      rw [callee?_mapCallee, hcallee]
      rfl
    have hf : instruction.mapCallee f = instruction.withImmediate (.varUint32 (f index)) := by
      rw [mapCallee, hcallee]
    have himmediate := (callee?_eq_some_iff.mp hcallee).2
    rw [mapCallee, hcalled, hf]
    show (instruction.withImmediate _).withImmediate (.varUint32 (g (f index))) = instruction
    rw [h index hcallee]
    cases instruction
    cases himmediate
    rfl

/-- Why a call cannot be shifted. -/
def callError? (meterIndex : UInt32) (instruction : Instruction) : Option MeteringError :=
  instruction.callee?.bind (shiftError? meterIndex)

theorem shiftError?_of_callError? {meterIndex index : UInt32} {instruction : Instruction}
    (h : instruction.callError? meterIndex = none) (hcallee : index ∈ instruction.callee?) :
    shiftError? meterIndex index = none := by
  rw [callError?, show instruction.callee? = some index from hcallee] at h
  exact h

/-- A call that is shifted does not call the metering function. -/
theorem callee?_mapCallee_shifted_ne {meterIndex : UInt32} {instruction : Instruction}
    (h : instruction.callError? meterIndex = none) :
    (instruction.mapCallee (shifted meterIndex)).callee? ≠ some meterIndex := by
  rw [callee?_mapCallee]
  intro hcall
  obtain ⟨index, hcallee, hindex⟩ := Option.map_eq_some_iff.mp hcall
  exact shifted_ne (shiftError?_of_callError? h hcallee) hindex

theorem mapCallee_unshifted {meterIndex : UInt32} {instruction : Instruction}
    (h : instruction.callError? meterIndex = none) :
    (instruction.mapCallee (shifted meterIndex)).mapCallee (unshifted meterIndex) = instruction :=
  mapCallee_mapCallee_of_inverse fun _ hcallee ↦
    unshifted_shifted (shiftError?_of_callError? h hcallee)

/-- A call is shifted, unless its callee cannot be. -/
theorem shiftCall_eq (meterIndex : UInt32) (instruction : Instruction) :
    instruction.shiftCall meterIndex =
      outcome (instruction.callError? meterIndex) (instruction.mapCallee (shifted meterIndex)) := by
  unfold callError? mapCallee
  cases hcallee : instruction.callee? with
  | some index =>
    obtain ⟨hname, himmediate⟩ := callee?_eq_some_iff.mp hcallee
    have hshift : instruction.shiftCall meterIndex = (shiftIndex meterIndex index).map fun index ↦
        instruction.withImmediate (.varUint32 index) := by
      unfold shiftCall
      rw [hname, himmediate]
      rfl
    rw [hshift, shiftIndex_eq, outcome_map]
    rfl
  | none =>
    unfold shiftCall
    split
    · next index hname himmediate =>
      rw [callee?_eq_some_iff.mpr ⟨hname, himmediate⟩] at hcallee
      cases hcallee
    · rfl

end Instruction

end WasmMeter
