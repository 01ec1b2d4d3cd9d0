import Mathlib.Algebra.BigOperators.Ring.Finset
import WasmMeter.Proofs.Gas.Payments

/-!
# Code is paid for before it runs

A walk is a course that control may take through code: from an instruction to the next one, or from
a branching instruction to behind any branching instruction. Whenever control comes to an
instruction, what stands in front of it in metered code is paid.

At every point of a walk the sum of the payments is made up of the start cost, of the costs of all
instructions that were visited, of one overhead for each block with a cost that was entered, and of
the costs of the instructions that are left in the current block (`Walk.sum_payment`). The last part
is what is paid in advance, and it is zero at the end of a block.
-/

set_option autoImplicit false

namespace WasmMeter

open Instruction MeterOptions

/-! ### Walks -/

/-- Whether control may pass from a position to another one. -/
inductive Passes (code : List Instruction) (position : Nat) : Nat → Prop
  | next (hnext : position + 1 < code.length) : Passes code position (position + 1)
  | jump {before : Nat} (hfrom : branchesAt code position = true)
      (hto : branchesAt code before = true) (hbefore : before + 1 < code.length) :
      Passes code position (before + 1)

/-- The positions of a walk from the first instruction on, and the last one of them. -/
inductive Walk (code : List Instruction) : List Nat → Nat → Prop
  | start (hcode : 0 < code.length) : Walk code [0] 0
  | step {visited : List Nat} {position next : Nat} (hwalk : Walk code visited position)
      (hpass : Passes code position next) : Walk code (visited ++ [next]) next

variable {code : List Instruction} {visited walk : List Nat} {position next : Nat}

theorem Passes.lt_length (h : Passes code position next) : next < code.length := by
  cases h with
  | next hnext => exact hnext
  | jump hfrom hto hbefore => exact hbefore

theorem Walk.getLast? (h : Walk code visited position) : visited.getLast? = some position := by
  cases h with
  | start => rfl
  | step hwalk hpass => exact List.getLast?_concat

/-- A walk stays in the code. -/
theorem Walk.lt_length (h : Walk code visited position) : ∀ p ∈ visited, p < code.length := by
  induction h with
  | start hcode => simpa using hcode
  | step hwalk hpass ih =>
    intro p hp
    rcases List.mem_append.mp hp with hbefore | hlast
    · exact ih p hbefore
    · rw [List.mem_singleton.mp hlast]
      exact hpass.lt_length

/-- What a walk has visited at some point is a walk. -/
theorem Walk.of_prefix (h : Walk code walk position) (hne : visited ≠ [])
    (hvisited : visited <+: walk) : ∃ last, Walk code visited last := by
  induction h with
  | start hcode =>
    rcases List.prefix_cons_iff.mp hvisited with hnil | ⟨later, rfl, hlater⟩
    · exact absurd hnil hne
    · rw [List.prefix_nil.mp hlater]
      exact ⟨0, .start hcode⟩
  | step hwalk hpass ih =>
    rcases List.prefix_concat_iff.mp hvisited with rfl | hbefore
    · exact ⟨_, hwalk.step hpass⟩
    · exact ih hbefore

/-! ### Costs -/

namespace CostTable

variable {table : CostTable} {start : Nat}

/-- What the instruction at a position costs. -/
def priceAt (table : CostTable) (code : List Instruction) (position : Nat) : Nat :=
  code[position]?.elim 0 table.price

/-- The costs of the instructions that are left in the block of a position. -/
def remaining (table : CostTable) (code : List Instruction) (position : Nat) : Nat :=
  if branchesAt code position then 0 else table.exactCodeCost (blockAt code (position + 1))

theorem headD_extendFirstBlock (instruction : Instruction) (bs : List (List Instruction)) :
    (extendFirstBlock instruction bs).headD [] = instruction :: bs.headD [] := by
  cases bs <;> rfl

/-- The block that starts with an instruction costs as much as the instruction and what is left. -/
theorem exactCodeCost_blockAt (hposition : position < code.length) :
    table.exactCodeCost (blockAt code position) =
      table.priceAt code position + table.remaining code position := by
  rw [blockAt, List.drop_eq_getElem_cons hposition, blocks, priceAt, remaining, branchesAt,
    List.getElem?_eq_getElem hposition, Option.any_some, Option.elim_some]
  split
  · rw [List.headD_cons, exactCodeCost_cons, exactCodeCost_nil]
  · rw [headD_extendFirstBlock, exactCodeCost_cons]
    rfl

/-- Whether a block with a cost is entered at a position. -/
def entersCost (table : CostTable) (start : Nat) (code : List Instruction) (position : Nat) :
    Bool :=
  startsBlock code position && table.entryCost start code position != 0

/-- Nothing is left at the end of a block. -/
theorem remaining_eq_zero (hend : branchesAt code position = true ∨ position + 1 = code.length) :
    table.remaining code position = 0 := by
  rw [remaining]
  split
  · rfl
  · next hstays =>
    have hlast := hend.resolve_left hstays
    rw [blockAt, hlast, List.drop_length]
    rfl

end CostTable

/-! ### The invariant of a walk -/

variable (options : MeterOptions) (start : Nat)

/-- What is paid where a block starts: the overhead if the block costs anything, the start cost at
the first position, and the costs of the whole block. -/
theorem payment_of_startsBlock (hstarts : startsBlock code position = true)
    (hposition : position < code.length) :
    options.payment start code position =
      (if position = 0 then start else 0) + options.costTable.priceAt code position +
        options.costTable.remaining code position +
        if options.costTable.entersCost start code position then options.exactOverhead else 0 := by
  have hcost : options.costTable.entryCost start code position =
      (if position = 0 then start else 0) + options.costTable.priceAt code position +
        options.costTable.remaining code position := by
    rw [CostTable.entryCost, CostTable.exactCodeCost_blockAt hposition, Nat.add_assoc]
  rw [payment, CostTable.entersCost, hstarts, ← hcost]
  by_cases hfree : options.costTable.entryCost start code position = 0
  · simp [hfree]
  · simp [hfree]

/-- Nothing is paid inside of a block. -/
theorem payment_of_not_startsBlock (hstays : startsBlock code position = false) :
    options.payment start code position = 0 ∧
      options.costTable.entersCost start code position = false := by
  rw [payment, CostTable.entersCost, hstays]
  simp

/-- Behind a branching instruction a whole block is paid for, and nothing was paid in advance. -/
theorem payment_of_branchesAt {before : Nat} (hfrom : branchesAt code position = true)
    (hto : branchesAt code before = true) (hbefore : before + 1 < code.length) :
    options.payment start code (before + 1) + options.costTable.remaining code position =
      options.costTable.priceAt code (before + 1) + options.costTable.remaining code (before + 1) +
        if options.costTable.entersCost start code (before + 1) then options.exactOverhead
        else 0 := by
  have hstarts : startsBlock code (before + 1) = true := hto
  rw [payment_of_startsBlock options start hstarts hbefore,
    CostTable.remaining_eq_zero (.inl hfrom), if_neg (Nat.succ_ne_zero before), Nat.zero_add,
    Nat.add_zero]

/-- What one step pays, and what it uses of what was paid in advance. -/
theorem Passes.payment_add_remaining (h : Passes code position next) :
    options.payment start code next + options.costTable.remaining code position =
      options.costTable.priceAt code next + options.costTable.remaining code next +
        if options.costTable.entersCost start code next then options.exactOverhead else 0 := by
  cases h with
  | jump hfrom hto hbefore => exact payment_of_branchesAt options start hfrom hto hbefore
  | next hnext =>
    by_cases hbranches : branchesAt code position = true
    · exact payment_of_branchesAt options start hbranches hbranches hnext
    · have hstays : startsBlock code (position + 1) = false := Bool.eq_false_iff.mpr hbranches
      obtain ⟨hpayment, henters⟩ := payment_of_not_startsBlock options start hstays
      have hremaining : options.costTable.remaining code position =
          options.costTable.priceAt code (position + 1) +
            options.costTable.remaining code (position + 1) := by
        rw [CostTable.remaining, if_neg hbranches, CostTable.exactCodeCost_blockAt hnext]
      rw [hpayment, henters, hremaining, Nat.zero_add, if_neg Bool.false_ne_true]
      rfl

/-- The payments of a walk are the start cost, the costs of what was visited, the overheads, and
what is left to do in the current block. -/
theorem Walk.sum_payment (h : Walk code visited position) :
    (visited.map (options.payment start code)).sum =
      start + (visited.map (options.costTable.priceAt code)).sum +
        options.exactOverhead * visited.countP (options.costTable.entersCost start code) +
        options.costTable.remaining code position := by
  induction h with
  | start hcode =>
    have hstarts : startsBlock code 0 = true := rfl
    have hpayment := payment_of_startsBlock options start hstarts hcode
    rw [if_pos rfl] at hpayment
    by_cases henters : options.costTable.entersCost start code 0 = true
    · simp [hpayment, henters]
      omega
    · simp [hpayment, henters]
  | @step visited position next hwalk hpass ih =>
    -- A step uses up what was paid in advance for it, or pays for the block that it enters.
    have hstep := hpass.payment_add_remaining options start
    simp only [List.map_append, List.map_cons, List.map_nil, List.sum_append, List.sum_cons,
      List.sum_nil, List.countP_append, List.countP_cons, List.countP_nil]
    by_cases henters : options.costTable.entersCost start code next = true
    · rw [if_pos henters] at hstep
      rw [if_pos henters, Nat.zero_add, Nat.mul_add, Nat.mul_one]
      omega
    · rw [if_neg henters] at hstep
      simp only [if_neg henters, Nat.add_zero]
      omega

/-! ### Metered modules -/

/-- What the charges of metered code take along a walk over the code. -/
def chargedAlong (meterIndex : UInt32) (metered : List Instruction) (visited : List Nat) : Int :=
  (visited.map fun position ↦ (payments meterIndex metered).getD position 0).sum

/-- What a call costs that visits these positions: the start cost and the costs of all
instructions that were visited. -/
def CostTable.spentAlong (table : CostTable) (start : Nat) (code : List Instruction)
    (visited : List Nat) : Nat :=
  start + (visited.map (table.priceAt code)).sum

/-- At every point of every walk what is done is paid, and where a block ends nothing more is paid
than that and the charges themselves. -/
structure PaysAhead (options : MeterOptions) (meterIndex : UInt32) (start : Nat)
    (code metered : List Instruction) : Prop where
  covers : ∀ walk last, Walk code walk last → ∀ visited, visited ≠ [] → visited <+: walk →
    (options.costTable.spentAlong start code visited : Int) ≤
      chargedAlong meterIndex metered visited
  exact : ∀ walk last, Walk code walk last → ∀ visited, visited ≠ [] → visited <+: walk →
    ∀ position ∈ visited.getLast?,
      (branchesAt code position = true ∨ position + 1 = code.length) →
        chargedAlong meterIndex metered visited =
          (options.costTable.spentAlong start code visited +
            options.exactOverhead * visited.countP (options.costTable.entersCost start code) : Nat)

variable {options start} {meterIndex : UInt32} {metered : List Instruction}

/-- Along a walk the charges take what has to be paid at each of its positions. -/
theorem Walk.chargedAlong_eq {limit : Nat} (hlimit : limit ∈ options.limit?)
    (hcharged : Charged options meterIndex start (blocks code) metered)
    (h : Walk code visited position) :
    chargedAlong meterIndex metered visited =
      ((visited.map (options.payment start code)).sum : Nat) := by
  rw [Nat.cast_list_sum, List.map_map, chargedAlong]
  refine congrArg List.sum (List.map_congr_left fun p hp ↦ ?_)
  rw [List.getD_eq_getElem?_getD,
    hcharged.getElem?_payments hlimit (isSplit_blocks code) (h.lt_length p hp)]
  rfl

/-- Metered code has every work paid before it is done. -/
theorem MeterOptions.Charged.paysAhead
    (htype : options.meterType = .i32 ∨ options.meterType = .i64)
    (h : Charged options meterIndex start (blocks code) metered) :
    PaysAhead options meterIndex start code metered := by
  obtain ⟨limit, hlimit⟩ := exists_limit htype
  constructor
  case covers =>
    intro walk last hwalk visited hne hvisited
    obtain ⟨position, hvisit⟩ := hwalk.of_prefix hne hvisited
    rw [hvisit.chargedAlong_eq hlimit h, hvisit.sum_payment options start, CostTable.spentAlong]
    omega
  case exact =>
    intro walk last hwalk visited hne hvisited position hposition hend
    obtain ⟨final, hvisit⟩ := hwalk.of_prefix hne hvisited
    rw [hvisit.getLast?] at hposition
    cases hposition
    rw [hvisit.chargedAlong_eq hlimit h, hvisit.sum_payment options start, CostTable.spentAlong,
      CostTable.remaining_eq_zero hend, Nat.add_zero]

/-- A meter of integers has every work paid before it is done, on every walk through every body. -/
theorem Module.paysAhead_of_meter_eq_ok {m m' : Module} {options : MeterOptions}
    (himports : (m.imports?.getD []).length < 2 ^ 32 - 1)
    (htype : options.meterType = .i32 ∨ options.meterType = .i64)
    (h : m.meter options = .ok m') :
    ∃ meterIndex : UInt32, meterIndex.toNat = m.importedFunctions ∧
      ∀ bodies, m.code? = some bodies → ∃ bodies', m'.code? = some bodies' ∧
        ∀ index body, bodies[index]? = some body → ∃ body' signature,
          bodies'[index]? = some body' ∧
          signatureOf? m' index = some signature ∧
          (∀ original, signatureOf? m index = some original → signature = original) ∧
          PaysAhead options meterIndex
            (options.costTable.exactSignatureCost signature +
              options.costTable.exactLocalsCost body.locals) body.code body'.code := by
  refine ⟨meterIndexOf m, toNat_meterIndexOf himports, fun bodies hbodies ↦ ?_⟩
  obtain ⟨bodies', hbodies', -⟩ := exists_bodies_of_meter_eq_ok h hbodies
  refine ⟨bodies', hbodies', fun index body hbody ↦ ?_⟩
  obtain ⟨signature, code, hbody', hsignature, horiginal, hcharged⟩ :=
    exists_charged_of_meter_eq_ok h hbodies hbodies' hbody
  exact ⟨_, signature, hbody', hsignature, horiginal, hcharged.paysAhead htype⟩

theorem Module.paysAhead_looping :
    (looping.imports?.getD []).length < 2 ^ 32 - 1 ∧
      (MeterOptions.oneEach.meterType = .i32 ∨ MeterOptions.oneEach.meterType = .i64) ∧
      looping.meter .oneEach = .ok loopingMetered ∧
      ∃ meterIndex : UInt32, meterIndex.toNat = looping.importedFunctions ∧
        ∀ bodies, looping.code? = some bodies → ∃ bodies', loopingMetered.code? = some bodies' ∧
          ∀ index body, bodies[index]? = some body → ∃ body' signature,
            bodies'[index]? = some body' ∧
            signatureOf? loopingMetered index = some signature ∧
            (∀ original, signatureOf? looping index = some original → signature = original) ∧
            PaysAhead .oneEach meterIndex
              (MeterOptions.oneEach.costTable.exactSignatureCost signature +
                MeterOptions.oneEach.costTable.exactLocalsCost body.locals)
              body.code body'.code := by
  have himports : (looping.imports?.getD []).length < 2 ^ 32 - 1 := by decide
  have htype : MeterOptions.oneEach.meterType = .i32 ∨ MeterOptions.oneEach.meterType = .i64 :=
    .inr rfl
  exact ⟨himports, htype, meter_looping, paysAhead_of_meter_eq_ok himports htype meter_looping⟩

end WasmMeter
