import Mathlib.Data.List.Forall2
import WasmMeter.Proofs.Gas.Charges

/-!
# Metered code without its charges

A charge is recognized by its call: no other call in metered code calls the metering function
(`Charged.call_is_paid`). Without the calls of this function, and the instructions in front of them,
metered code is the code with its calls shifted (`Charged.withoutCharges_eq`).
-/

set_option autoImplicit false

namespace WasmMeter

open Instruction MeterOptions

/-- Whether the first instruction is a call of the function. -/
def startsWithCall (function : UInt32) (code : List Instruction) : Prop :=
  code.head?.bind callee? = some function

instance (function : UInt32) (code : List Instruction) : Decidable (startsWithCall function code) :=
  inferInstanceAs (Decidable (_ = _))

/-- Code without the calls of a function, and without the instruction in front of each of them. -/
def withoutCharges (function : UInt32) : List Instruction → List Instruction
  | [] => []
  | instruction :: later =>
    if instruction.callee? = some function ∨ startsWithCall function later then
      withoutCharges function later
    else instruction :: withoutCharges function later

theorem callee?_amount (type : ValueType) (amount : Nat) :
    (Instruction.amount type amount).callee? = none := by
  cases hcallee : (Instruction.amount type amount).callee? with
  | none => rfl
  | some index => exact absurd (callee?_eq_some_iff.mp hcallee).1 (show "const" ≠ "call" by decide)

theorem callee?_call (function : UInt32) :
    (Instruction.call function).callee? = some function := rfl

/-! ### Shifted blocks -/

variable {meterIndex : UInt32} {block rest : List Instruction}

/-- A block that was shifted calls the metering function nowhere. -/
theorem callee?_ne_of_mem_shiftedBlock
    (hcalls : ∀ instruction ∈ block, instruction.callError? meterIndex = none)
    {instruction : Instruction} (h : instruction ∈ shiftedBlock meterIndex block) :
    instruction.callee? ≠ some meterIndex := by
  obtain ⟨original, hmem, rfl⟩ := List.mem_map.mp h
  exact callee?_mapCallee_shifted_ne (hcalls original hmem)

theorem not_startsWithCall_append
    (hblock : ∀ instruction ∈ block, instruction.callee? ≠ some meterIndex)
    (hrest : ¬startsWithCall meterIndex rest) : ¬startsWithCall meterIndex (block ++ rest) := by
  cases block with
  | nil => exact hrest
  | cons instruction later => exact hblock instruction List.mem_cons_self

/-- Code without calls of the function stays. -/
theorem withoutCharges_append
    (hblock : ∀ instruction ∈ block, instruction.callee? ≠ some meterIndex)
    (hrest : ¬startsWithCall meterIndex rest) :
    withoutCharges meterIndex (block ++ rest) = block ++ withoutCharges meterIndex rest := by
  induction block with
  | nil => rfl
  | cons instruction later ih =>
    have hlater : ∀ i ∈ later, i.callee? ≠ some meterIndex :=
      fun i hi ↦ hblock i (List.mem_cons_of_mem instruction hi)
    rw [List.cons_append, withoutCharges, if_neg (not_or.mpr
      ⟨hblock instruction List.mem_cons_self, not_startsWithCall_append hlater hrest⟩), ih hlater,
      List.cons_append]

/-- A charge is taken away. -/
theorem withoutCharges_charge (options : MeterOptions) (amount : Nat) :
    withoutCharges meterIndex (options.charge amount meterIndex ++ rest) =
      withoutCharges meterIndex rest := by
  show withoutCharges meterIndex
    (.amount options.meterType amount :: .call meterIndex :: rest) = _
  rw [withoutCharges, if_pos (.inr rfl), withoutCharges, if_pos (.inl rfl)]

/-! ### Metered code -/

namespace MeterOptions

variable {options : MeterOptions} {start : Nat} {bs : List (List Instruction)}
  {code : List Instruction}

/-- Metered code starts with a block or with the constant of a charge, never with its call. -/
theorem Charged.not_startsWithCall (h : Charged options meterIndex start bs code) :
    ¬startsWithCall meterIndex code := by
  induction h with
  | nil => exact nofun
  | free _ hcalls _ ih =>
    exact not_startsWithCall_append (fun _ ↦ callee?_ne_of_mem_shiftedBlock hcalls) ih
  | paid =>
    intro hcall
    rw [startsWithCall, charge, List.cons_append, List.head?_cons, Option.bind_some,
      callee?_amount] at hcall
    cases hcall

/-- The charges are all that was added. -/
theorem Charged.withoutCharges_eq (h : Charged options meterIndex start bs code) :
    withoutCharges meterIndex code = shiftedBlock meterIndex bs.flatten := by
  induction h with
  | nil => rfl
  | free _ hcalls hlater ih =>
    rw [withoutCharges_append (fun _ ↦ callee?_ne_of_mem_shiftedBlock hcalls)
      hlater.not_startsWithCall, ih, List.flatten_cons]
    exact List.map_append.symm
  | paid _ _ _ hcalls hlater ih =>
    rw [withoutCharges_charge,
      withoutCharges_append (fun _ ↦ callee?_ne_of_mem_shiftedBlock hcalls)
      hlater.not_startsWithCall, ih, List.flatten_cons]
    exact List.map_append.symm

theorem Charged.callError?_eq_none (h : Charged options meterIndex start bs code) :
    ∀ instruction ∈ bs.flatten, instruction.callError? meterIndex = none := by
  induction h with
  | nil => exact nofun
  | free _ hcalls _ ih | paid _ _ _ hcalls _ ih =>
    intro instruction hmem
    rw [List.flatten_cons, List.mem_append] at hmem
    exact hmem.elim (hcalls instruction) (ih instruction)

/-- Every call of the metering function stands in code as a charge has it, behind a constant of the
type of the meter. -/
def CallsArePaid (type : ValueType) (meterIndex : UInt32) (code : List Instruction) : Prop :=
  ∀ position instruction, code[position]? = some instruction →
    instruction.callee? = some meterIndex →
      instruction = .call meterIndex ∧
        ∃ before amount, position = before + 1 ∧ code[before]? = some (.amount type amount)

theorem CallsArePaid.append {type : ValueType}
    (hblock : ∀ instruction ∈ block, instruction.callee? ≠ some meterIndex)
    (hrest : CallsArePaid type meterIndex rest) :
    CallsArePaid type meterIndex (block ++ rest) := by
  intro position instruction hposition hcallee
  by_cases hinside : position < block.length
  · rw [List.getElem?_append_left hinside] at hposition
    exact absurd hcallee (hblock instruction (List.mem_of_getElem? hposition))
  · rw [List.getElem?_append_right (Nat.not_lt.mp hinside)] at hposition
    obtain ⟨hcall, before, amount, hbefore, hamount⟩ := hrest _ instruction hposition hcallee
    refine ⟨hcall, block.length + before, amount, by omega, ?_⟩
    rw [List.getElem?_append_right (Nat.le_add_right _ _), Nat.add_sub_cancel_left, hamount]

theorem CallsArePaid.charge {amount : Nat}
    (hrest : CallsArePaid options.meterType meterIndex rest) :
    CallsArePaid options.meterType meterIndex (options.charge amount meterIndex ++ rest) := by
  intro position instruction hposition hcallee
  match position with
  | 0 =>
    cases hposition
    rw [callee?_amount] at hcallee
    cases hcallee
  | 1 =>
    cases hposition
    exact ⟨rfl, 0, amount, rfl, rfl⟩
  | position + 2 =>
    obtain ⟨hcall, before, other, hbefore, hother⟩ := hrest position instruction hposition hcallee
    exact ⟨hcall, before + 2, other, by omega, hother⟩

/-- All calls of the metering function in metered code are those of the charges. -/
theorem Charged.callsArePaid (h : Charged options meterIndex start bs code) :
    CallsArePaid options.meterType meterIndex code := by
  induction h with
  | nil => exact fun _ _ hposition ↦ nomatch hposition
  | free _ hcalls _ ih => exact ih.append fun _ ↦ callee?_ne_of_mem_shiftedBlock hcalls
  | paid _ _ _ hcalls _ ih =>
    exact (ih.append fun _ ↦ callee?_ne_of_mem_shiftedBlock hcalls).charge

end MeterOptions

/-! ### Metered modules -/

/-- Metered code is the code and charges for it, and no call of the code calls the metering
function. -/
structure Erases (type : ValueType) (meterIndex : UInt32) (code metered : List Instruction) :
    Prop where
  erased : withoutCharges meterIndex metered = code.map (mapCallee (shifted meterIndex))
  restored : (withoutCharges meterIndex metered).map (mapCallee (unshifted meterIndex)) = code
  paid : CallsArePaid type meterIndex metered
  kept : ∀ instruction ∈ code,
    (instruction.mapCallee (shifted meterIndex)).callee? ≠ some meterIndex

theorem MeterOptions.Charged.erases {options : MeterOptions} {meterIndex : UInt32} {start : Nat}
    {code metered : List Instruction} (h : Charged options meterIndex start (blocks code) metered) :
    Erases options.meterType meterIndex code metered := by
  have herased := h.withoutCharges_eq
  have hcalls := h.callError?_eq_none
  rw [flatten_blocks] at herased hcalls
  refine ⟨herased, ?_, h.callsArePaid, fun i hi ↦ callee?_mapCallee_shifted_ne (hcalls i hi)⟩
  rw [herased, shiftedBlock, List.map_map]
  exact (List.map_congr_left fun i hi ↦ mapCallee_unshifted (hcalls i hi)).trans (List.map_id code)

/-- Metering adds charges to the bodies of a module and nothing else: without them, and with its
calls shifted back, each body is what it was. -/
theorem Module.erases_of_meter_eq_ok {m m' : Module} {options : MeterOptions}
    (himports : (m.imports?.getD []).length < 2 ^ 32 - 1) (h : m.meter options = .ok m') :
    ∃ meterIndex : UInt32, meterIndex.toNat = m.importedFunctions ∧
      ∀ bodies, m.code? = some bodies → ∃ bodies', m'.code? = some bodies' ∧
        List.Forall₂ (fun body body' ↦ body'.locals = body.locals ∧
          Erases options.meterType meterIndex body.code body'.code) bodies bodies' := by
  refine ⟨meterIndexOf m, toNat_meterIndexOf himports, fun bodies hbodies ↦ ?_⟩
  obtain ⟨bodies', hbodies', hlength⟩ := exists_bodies_of_meter_eq_ok h hbodies
  refine ⟨bodies', hbodies', List.forall₂_iff_get.mpr ⟨hlength.symm, fun i hi hi' ↦ ?_⟩⟩
  obtain ⟨signature, code, hbody', -, -, hcharged⟩ :=
    exists_charged_of_meter_eq_ok h hbodies hbodies' (List.getElem?_eq_getElem hi)
  rw [List.getElem?_eq_getElem hi', Option.some_inj] at hbody'
  rw [List.get_eq_getElem, List.get_eq_getElem, hbody']
  exact ⟨rfl, hcharged.erases⟩

/-- Every name costs one. -/
def MeterOptions.oneEach : MeterOptions := ⟨[("DEFAULT", .flat 1)], "metering", "usegas", .i64⟩

/-- A module with one import and one body, which calls both functions in a loop. -/
def Module.looping : Module :=
  ⟨.standard, [.types [⟨.func, [.i32], none⟩], .imports [⟨"env", "f", .function 0⟩],
    .functions [0],
    .code [⟨[⟨2, .i64⟩], [⟨"loop", none, some (.blockType .emptyBlock)⟩, .call 0, .call 1,
      ⟨"br", none, some (.varUint32 0)⟩, ⟨"end", none, none⟩]⟩]]⟩

/-- What `Module.looping` becomes. -/
def Module.loopingMetered : Module :=
  ⟨.standard, [.types [⟨.func, [.i32], none⟩, ⟨.func, [.i64], none⟩],
    .imports [⟨"env", "f", .function 0⟩, ⟨"metering", "usegas", .function 1⟩], .functions [0],
    .code [⟨[⟨2, .i64⟩], [.amount .i64 7, .call 1, ⟨"loop", none, some (.blockType .emptyBlock)⟩,
      .amount .i64 5, .call 1, .call 0, .call 2, ⟨"br", none, some (.varUint32 0)⟩,
      .amount .i64 3, .call 1, ⟨"end", none, none⟩]⟩]]⟩

theorem Module.meter_looping : looping.meter .oneEach = .ok loopingMetered := by
  rw [meter_eq]
  decide +kernel

theorem Module.erases_looping :
    (looping.imports?.getD []).length < 2 ^ 32 - 1 ∧
      looping.meter .oneEach = .ok loopingMetered ∧
      ∃ meterIndex : UInt32, meterIndex.toNat = looping.importedFunctions ∧
        ∀ bodies, looping.code? = some bodies → ∃ bodies', loopingMetered.code? = some bodies' ∧
          List.Forall₂ (fun body body' ↦ body'.locals = body.locals ∧
            Erases .i64 meterIndex body.code body'.code) bodies bodies' := by
  have himports : (looping.imports?.getD []).length < 2 ^ 32 - 1 := by decide
  exact ⟨himports, meter_looping, erases_of_meter_eq_ok himports meter_looping⟩

end WasmMeter
