import WasmMeter.Proofs.Gas.ExactCharges

/-!
# What is paid in front of an instruction

`payments` reads off metered code what is paid right in front of each instruction of the code. It is
paid where a block starts, and then it is the exact cost of the block and of the charge, unless the
block costs nothing (`MeterOptions.payment`, `Charged.payments_eq`).
-/

set_option autoImplicit false

namespace WasmMeter

open Instruction MeterOptions

/-! ### Positions -/

/-- Whether the instruction at a position is a branching one. -/
def branchesAt (code : List Instruction) (position : Nat) : Bool :=
  code[position]?.any Instruction.isBranching

/-- Whether a block starts at a position: the first one does, and those behind a branching
instruction. -/
def startsBlock (code : List Instruction) : (position : Nat) → Bool
  | 0 => true
  | before + 1 => branchesAt code before

/-- The block that starts at a position. -/
def blockAt (code : List Instruction) (position : Nat) : List Instruction :=
  (blocks (code.drop position)).headD []

/-- The exact cost of the block that starts at a position. The block at the first position has the
start cost on top. -/
def CostTable.entryCost (table : CostTable) (start : Nat) (code : List Instruction)
    (position : Nat) : Nat :=
  (if position = 0 then start else 0) + table.exactCodeCost (blockAt code position)

/-- What has to be paid at a position. -/
def MeterOptions.payment (options : MeterOptions) (start : Nat) (code : List Instruction)
    (position : Nat) : Nat :=
  if startsBlock code position ∧ options.costTable.entryCost start code position ≠ 0 then
    options.costTable.entryCost start code position + options.exactOverhead
  else 0

variable {block rest : List Instruction}

theorem branchesAt_append_right (position : Nat) :
    branchesAt (block ++ rest) (block.length + position) = branchesAt rest position := by
  rw [branchesAt, List.getElem?_append_right (Nat.le_add_right _ _), Nat.add_sub_cancel_left]
  rfl

theorem branchesAt_append_left {position : Nat}
    (hinner : ∀ instruction ∈ block.dropLast, instruction.isBranching = false)
    (hposition : position + 1 < block.length) : branchesAt (block ++ rest) position = false := by
  have hlast : position < block.dropLast.length := by
    rw [List.length_dropLast]
    omega
  have hmem : block[position] ∈ block.dropLast := by
    rw [← List.getElem_dropLast hlast]
    exact List.getElem_mem hlast
  rw [branchesAt, List.getElem?_append_left (by omega), List.getElem?_eq_getElem (by omega)]
  exact hinner _ hmem

/-- Behind a block the blocks start where they do in the rest of the code. -/
theorem startsBlock_append {position : Nat} (hne : block ≠ [])
    (hlast : ∀ instruction ∈ block.getLast?, instruction.isBranching = true) :
    startsBlock (block ++ rest) (block.length + position) = startsBlock rest position := by
  cases position with
  | zero =>
    have hlength : block.length = block.length - 1 + 1 := by
      have hpos := List.length_pos_iff.mpr hne
      omega
    rw [Nat.add_zero, hlength]
    show branchesAt (block ++ rest) (block.length - 1) = true
    rw [branchesAt, List.getElem?_append_left (by omega), ← List.getLast?_eq_getElem?,
      List.getLast?_eq_some_getLast hne]
    exact hlast _ (List.getLast?_eq_some_getLast hne)
  | succ before => exact branchesAt_append_right before

/-- What has to be paid behind a block has to be paid in the rest of the code, with nothing on top.
-/
theorem payment_append {options : MeterOptions} {start position : Nat} (hne : block ≠ [])
    (hlast : ∀ instruction ∈ block.getLast?, instruction.isBranching = true) :
    options.payment start (block ++ rest) (block.length + position) =
      options.payment 0 rest position := by
  have hblock : blockAt (block ++ rest) (block.length + position) = blockAt rest position := by
    rw [blockAt, List.drop_append, List.drop_eq_nil_of_le (Nat.le_add_right _ _), List.nil_append,
      Nat.add_sub_cancel_left]
    rfl
  have hcost : options.costTable.entryCost start (block ++ rest) (block.length + position) =
      options.costTable.entryCost 0 rest position := by
    have hpos := List.length_pos_iff.mpr hne
    rw [CostTable.entryCost, CostTable.entryCost, hblock, if_neg (by omega), ite_self]
  rw [payment, payment, startsBlock_append hne hlast, hcost]

/-! ### Payments -/

/-- What is paid right in front of each instruction of the code, by the charges of metered code. -/
def payments (meterIndex : UInt32) : List Instruction → List Int
  | [] => []
  | [_] => [0]
  | first :: second :: rest =>
    if second.callee? = some meterIndex then
      match payments meterIndex rest with
      | [] => []
      | amount :: later => (first.integer?.getD 0 + amount) :: later
    else 0 :: payments meterIndex (second :: rest)

variable {meterIndex : UInt32}

theorem payments_cons {instruction : Instruction} (h : ¬startsWithCall meterIndex rest) :
    payments meterIndex (instruction :: rest) = 0 :: payments meterIndex rest := by
  cases rest with
  | nil => rfl
  | cons second later =>
    have hsecond : second.callee? ≠ some meterIndex := h
    rw [payments, if_neg hsecond]

/-- Nothing is paid in front of instructions that are no charges. -/
theorem payments_append
    (hblock : ∀ instruction ∈ block, instruction.callee? ≠ some meterIndex)
    (hrest : ¬startsWithCall meterIndex rest) :
    payments meterIndex (block ++ rest) =
      List.replicate block.length 0 ++ payments meterIndex rest := by
  induction block with
  | nil => rfl
  | cons instruction later ih =>
    have hlater : ∀ i ∈ later, i.callee? ≠ some meterIndex :=
      fun i hi ↦ hblock i (List.mem_cons_of_mem instruction hi)
    rw [List.cons_append, payments_cons (not_startsWithCall_append hlater hrest), ih hlater,
      List.length_cons, List.replicate_succ, List.cons_append]

/-- Nothing is paid in a block itself. -/
theorem payments_shiftedBlock (hne : block ≠ [])
    (hcalls : ∀ instruction ∈ block, instruction.callError? meterIndex = none)
    (hrest : ¬startsWithCall meterIndex rest) :
    payments meterIndex (shiftedBlock meterIndex block ++ rest) =
      0 :: (List.replicate (block.length - 1) 0 ++ payments meterIndex rest) := by
  have hlength : (shiftedBlock meterIndex block).length = block.length - 1 + 1 := by
    have hpos := List.length_pos_iff.mpr hne
    rw [shiftedBlock, List.length_map]
    omega
  rw [payments_append (fun _ ↦ callee?_ne_of_mem_shiftedBlock hcalls) hrest, hlength,
    List.replicate_succ, List.cons_append]

/-- A charge is paid in front of the instruction that follows it. -/
theorem payments_charge {options : MeterOptions} {amount limit : Nat}
    (hlimit : limit ∈ options.limit?) (hamount : amount ≤ limit) {first : Int} {later : List Int}
    (hrest : payments meterIndex rest = first :: later) :
    payments meterIndex (options.charge amount meterIndex ++ rest) =
      ((amount : Int) + first) :: later := by
  show payments meterIndex (.amount options.meterType amount :: .call meterIndex :: rest) = _
  rw [payments, if_pos (callee?_call meterIndex), hrest, integer?_amount hlimit hamount]
  rfl

/-! ### Metered code -/

variable {options : MeterOptions} {start : Nat} {later : List (List Instruction)}

theorem payment_zero {code : List Instruction} (h : IsSplit code (block :: later)) :
    options.payment start code 0 =
      if start + options.costTable.exactCodeCost block = 0 then 0
      else start + options.costTable.exactCodeCost block + options.exactOverhead := by
  have hblock : blockAt code 0 = block := by
    rw [blockAt, List.drop_zero, ← h.eq_blocks, List.headD_cons]
  rw [payment, CostTable.entryCost, hblock, if_pos rfl]
  by_cases hcost : start + options.costTable.exactCodeCost block = 0
  · rw [if_pos hcost, if_neg fun hpaid ↦ hpaid.2 hcost]
  · rw [if_neg hcost, if_pos ⟨rfl, hcost⟩]

/-- What is paid in front of code is what has to be paid there if that holds of the first
instruction, if nothing is paid inside the first block, and if it holds behind the first block. -/
theorem getElem?_payments_of_tail {code : List Instruction} (h : IsSplit code (block :: later))
    {first : Int} {behind : List Int} (hfirst : first = (options.payment start code 0 : Int))
    (hbehind : ∀ position < later.flatten.length,
      behind[position]? = some (options.payment 0 later.flatten position : Int))
    {position : Nat} (hposition : position < code.length) :
    (first :: (List.replicate (block.length - 1) 0 ++ behind))[position]? =
      some (options.payment start code position : Int) := by
  have hne := h.ne_nil block List.mem_cons_self
  have hcode : code = block ++ later.flatten := h.flatten.symm
  have hpos := List.length_pos_iff.mpr hne
  match position with
  | 0 => rw [List.getElem?_cons_zero, hfirst]
  | before + 1 =>
    rw [List.getElem?_cons_succ]
    by_cases hinside : before + 1 < block.length
    · have hstays : startsBlock code (before + 1) = false := by
        rw [hcode]
        exact branchesAt_append_left (h.inner block List.mem_cons_self) hinside
      rw [List.getElem?_append_left (by rw [List.length_replicate]; omega),
        List.getElem?_replicate_of_lt (by omega), payment, hstays]
      simp
    · obtain ⟨offset, hoffset⟩ := Nat.exists_eq_add_of_le (Nat.not_lt.mp hinside)
      have hinrest : offset < later.flatten.length := by
        rw [hcode, List.length_append] at hposition
        omega
      have hrest : later.flatten ≠ [] := List.length_pos_iff.mp (Nat.zero_lt_of_lt hinrest)
      rw [List.getElem?_append_right (by rw [List.length_replicate]; omega), List.length_replicate,
        show before - (block.length - 1) = offset by omega, hbehind offset hinrest, hoffset, hcode,
        payment_append hne (h.branches_of_ne_nil hrest)]

/-- In front of every instruction is paid what has to be paid there. -/
theorem MeterOptions.Charged.getElem?_payments {limit : Nat} (hlimit : limit ∈ options.limit?)
    {bs : List (List Instruction)} {code metered : List Instruction}
    (h : Charged options meterIndex start bs metered) (hsplit : IsSplit code bs) {position : Nat}
    (hposition : position < code.length) :
    (payments meterIndex metered)[position]? =
      some (options.payment start code position : Int) := by
  induction h generalizing code position with
  | nil =>
    rw [← hsplit.flatten] at hposition
    cases hposition
  | free hfree hcalls hlater ih =>
    have hne := hsplit.ne_nil _ List.mem_cons_self
    rw [payments_shiftedBlock hne hcalls hlater.not_startsWithCall]
    refine getElem?_payments_of_tail hsplit ?_ (fun _ ↦ ih hsplit.tail) hposition
    rw [payment_zero hsplit, if_pos hfree]
    rfl
  | paid hcost hamount hwithin hcalls hlater ih =>
    have hne := hsplit.ne_nil _ List.mem_cons_self
    -- The amount would be past the limit if it had been cut off.
    have hexact := eq_of_min_maxCost_le hamount (hwithin limit hlimit) (limit_lt_maxCost hlimit)
    rw [payments_charge hlimit (hwithin limit hlimit)
      (payments_shiftedBlock hne hcalls hlater.not_startsWithCall)]
    refine getElem?_payments_of_tail hsplit ?_ (fun _ ↦ ih hsplit.tail) hposition
    rw [payment_zero hsplit, if_neg hcost, hexact, Int.add_zero]

end WasmMeter
