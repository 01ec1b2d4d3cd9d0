import WasmMeter.Proofs.Gas.Erasure

/-!
# Integers are charged exactly

A meter of integers charges each block exactly what its instructions and the charge itself cost, and
the first block of a body also what its signature and its locals cost. All these costs are sums
without a bound: where one of them is past the largest cost, so is the amount of a charge, and then
the pass fails, as the limits of integers lie below (`limit_lt_maxCost`).
-/

set_option autoImplicit false

namespace WasmMeter

open Instruction MeterOptions

/-! ### Amounts -/

/-- The integer that a constant has. -/
def Instruction.integer? (instruction : Instruction) : Option Int :=
  match instruction.immediate with
  | some (.varInt32 value) => some value.toInt
  | some (.varInt64 value) => some value.toInt
  | _ => none

/-- The limit of a meter of integers. -/
theorem limit_lt_maxCost {options : MeterOptions} {limit : Nat} (h : limit ∈ options.limit?) :
    limit < maxCost := by
  unfold limit? at h
  split at h <;> cases h <;> decide

/-- A meter of integers has a limit. -/
theorem exists_limit {options : MeterOptions}
    (htype : options.meterType = .i32 ∨ options.meterType = .i64) :
    ∃ limit, limit ∈ options.limit? := by
  unfold limit?
  rcases htype with h | h <;> rw [h] <;> exact ⟨_, rfl⟩

/-- An amount within the limit is a constant of the same integer. -/
theorem integer?_amount {options : MeterOptions} {limit amount : Nat} (h : limit ∈ options.limit?)
    (hamount : amount ≤ limit) :
    (Instruction.amount options.meterType amount).integer? = some (amount : Int) := by
  unfold limit? at h
  cases htype : options.meterType with
  | i32 =>
    rw [htype] at h
    cases h
    exact congrArg some (Int32.toInt_ofInt_of_le (by omega) (by omega))
  | i64 =>
    rw [htype] at h
    cases h
    exact congrArg some (Int64.toInt_ofInt_of_le (by omega) (by omega))
  | f32 => rw [htype] at h; cases h
  | f64 => rw [htype] at h; cases h

/-! ### Blocks -/

/-- The exact costs of blocks, the first of which has the start cost on top. -/
def CostTable.blockCosts (table : CostTable) : (start : Nat) → List (List Instruction) → List Nat
  | _, [] => []
  | start, block :: later => (start + table.exactCodeCost block) :: table.blockCosts 0 later

namespace MeterOptions

/-- A block of a cost: behind its charge, if it costs anything. -/
def chargedBlock (options : MeterOptions) (meterIndex : UInt32) (cost : Nat)
    (block : List Instruction) : List Instruction :=
  (if cost = 0 then [] else options.charge (cost + options.exactOverhead) meterIndex) ++
    block.map (mapCallee (shifted meterIndex))

/-- The amount of a charge is not cut off at the largest cost if it is within a limit. -/
theorem eq_of_min_maxCost_le {amount exact limit : Nat} (hamount : amount = min exact maxCost)
    (hlimit : amount ≤ limit) (hlt : limit < maxCost) : amount = exact := by
  omega

/-- Metered code is the charged blocks one behind the other. -/
theorem Charged.eq_chargedBlocks {options : MeterOptions} {meterIndex : UInt32} {start limit : Nat}
    {bs : List (List Instruction)} {code : List Instruction} (hlimit : limit ∈ options.limit?)
    (h : Charged options meterIndex start bs code) :
    code = (List.zipWith (options.chargedBlock meterIndex)
      (options.costTable.blockCosts start bs) bs).flatten := by
  induction h with
  | nil => rfl
  | free hfree _ _ ih =>
    rw [CostTable.blockCosts, List.zipWith_cons_cons, List.flatten_cons, ← ih, chargedBlock,
      if_pos hfree]
    rfl
  | paid hcost hamount hwithin _ _ ih =>
    have hexact := eq_of_min_maxCost_le hamount (hwithin limit hlimit) (limit_lt_maxCost hlimit)
    rw [CostTable.blockCosts, List.zipWith_cons_cons, List.flatten_cons, ← ih, chargedBlock,
      if_neg hcost, hexact, List.append_assoc]
    rfl

/-- The constants of the charges are the exact amounts. -/
theorem Charged.integer?_amount {options : MeterOptions} {meterIndex : UInt32} {start limit : Nat}
    {bs : List (List Instruction)} {code : List Instruction} (hlimit : limit ∈ options.limit?)
    (h : Charged options meterIndex start bs code) :
    ∀ cost ∈ options.costTable.blockCosts start bs, cost ≠ 0 →
      (Instruction.amount options.meterType (cost + options.exactOverhead)).integer? =
        some ((cost + options.exactOverhead : Nat) : Int) := by
  induction h with
  | nil => exact nofun
  | free hfree _ _ ih =>
    intro cost hmem hne
    rcases List.mem_cons.mp hmem with rfl | hlater
    · exact absurd hfree hne
    · exact ih cost hlater hne
  | paid _ hamount hwithin _ _ ih =>
    intro cost hmem hne
    rcases List.mem_cons.mp hmem with rfl | hlater
    · have hle := hwithin limit hlimit
      rw [eq_of_min_maxCost_le hamount hle (limit_lt_maxCost hlimit)] at hle
      exact WasmMeter.integer?_amount hlimit hle
    · exact ih cost hlater hne

end MeterOptions

/-! ### Metered modules -/

/-- Metered code consists of the blocks of the code, in the only way to cut it into blocks, each
behind a charge of its exact cost and of what the charge itself costs. The constants of the charges
are these amounts, and no callee wraps where it is shifted. -/
structure ChargesExactly (options : MeterOptions) (meterIndex : UInt32) (start : Nat)
    (code metered : List Instruction) (bs : List (List Instruction)) : Prop where
  split : IsSplit code bs
  unique : ∀ other, IsSplit code other → other = bs
  charged : metered = (List.zipWith (options.chargedBlock meterIndex)
    (options.costTable.blockCosts start bs) bs).flatten
  exact : ∀ cost ∈ options.costTable.blockCosts start bs, cost ≠ 0 →
    (Instruction.amount options.meterType (cost + options.exactOverhead)).integer? =
      some ((cost + options.exactOverhead : Nat) : Int)
  shifts : ∀ instruction ∈ code, ∀ index ∈ instruction.callee?,
    (shifted meterIndex index).toNat =
      if index.toNat < meterIndex.toNat then index.toNat else index.toNat + 1

theorem MeterOptions.Charged.chargesExactly {options : MeterOptions} {meterIndex : UInt32}
    {start : Nat} {code metered : List Instruction}
    (htype : options.meterType = .i32 ∨ options.meterType = .i64)
    (h : Charged options meterIndex start (blocks code) metered) :
    ChargesExactly options meterIndex start code metered (blocks code) := by
  obtain ⟨limit, hlimit⟩ := exists_limit htype
  have hcalls := h.callError?_eq_none
  rw [flatten_blocks] at hcalls
  exact ⟨isSplit_blocks code, fun _ ↦ IsSplit.eq_blocks, h.eq_chargedBlocks hlimit,
    h.integer?_amount hlimit, fun instruction hmem _ hcallee ↦
      toNat_shifted (shiftError?_of_callError? (hcalls instruction hmem) hcallee)⟩

/-- A meter of integers charges the blocks of every body exactly. The start cost is that of the
signature and of the locals of the body. -/
theorem Module.chargesExactly_of_meter_eq_ok {m m' : Module} {options : MeterOptions}
    (himports : (m.imports?.getD []).length < 2 ^ 32 - 1)
    (htype : options.meterType = .i32 ∨ options.meterType = .i64)
    (h : m.meter options = .ok m') :
    ∃ meterIndex : UInt32, meterIndex.toNat = m.importedFunctions ∧
      ∀ bodies, m.code? = some bodies → ∃ bodies', m'.code? = some bodies' ∧
        ∀ index body, bodies[index]? = some body → ∃ body' signature bs,
          bodies'[index]? = some body' ∧
          signatureOf? m' index = some signature ∧
          (∀ original, signatureOf? m index = some original → signature = original) ∧
          ChargesExactly options meterIndex
            (options.costTable.exactSignatureCost signature +
              options.costTable.exactLocalsCost body.locals) body.code body'.code bs := by
  refine ⟨meterIndexOf m, toNat_meterIndexOf himports, fun bodies hbodies ↦ ?_⟩
  obtain ⟨bodies', hbodies', -⟩ := exists_bodies_of_meter_eq_ok h hbodies
  refine ⟨bodies', hbodies', fun index body hbody ↦ ?_⟩
  obtain ⟨signature, code, hbody', hsignature, horiginal, hcharged⟩ :=
    exists_charged_of_meter_eq_ok h hbodies hbodies' hbody
  exact ⟨_, signature, blocks body.code, hbody', hsignature, horiginal,
    hcharged.chargesExactly htype⟩

theorem Module.chargesExactly_looping :
    (looping.imports?.getD []).length < 2 ^ 32 - 1 ∧
      (MeterOptions.oneEach.meterType = .i32 ∨ MeterOptions.oneEach.meterType = .i64) ∧
      looping.meter .oneEach = .ok loopingMetered ∧
      ∃ meterIndex : UInt32, meterIndex.toNat = looping.importedFunctions ∧
        ∀ bodies, looping.code? = some bodies → ∃ bodies', loopingMetered.code? = some bodies' ∧
          ∀ index body, bodies[index]? = some body → ∃ body' signature bs,
            bodies'[index]? = some body' ∧
            signatureOf? loopingMetered index = some signature ∧
            (∀ original, signatureOf? looping index = some original → signature = original) ∧
            ChargesExactly .oneEach meterIndex
              (MeterOptions.oneEach.costTable.exactSignatureCost signature +
                MeterOptions.oneEach.costTable.exactLocalsCost body.locals)
              body.code body'.code bs := by
  have himports : (looping.imports?.getD []).length < 2 ^ 32 - 1 := by decide
  have htype : MeterOptions.oneEach.meterType = .i32 ∨ MeterOptions.oneEach.meterType = .i64 :=
    .inr rfl
  exact ⟨himports, htype, meter_looping,
    chargesExactly_of_meter_eq_ok himports htype meter_looping⟩

end WasmMeter
