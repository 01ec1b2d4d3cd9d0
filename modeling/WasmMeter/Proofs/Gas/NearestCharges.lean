import WasmMeter.Proofs.Bytes
import WasmMeter.Proofs.Gas.FirstCause
import WasmMeter.Proofs.Text.FloatValue

/-!
# What the constants of charges carry

A charge is written as a decimal number and read as a constant of the type of the meter. The
constant of an integer is the exact cost of the block and of the charge, and a cost that is past the
largest integer is an error. Floats are not limited. The constant of a float is the number of its
format that is nearest to the exact cost, so it is this cost wherever the format has it, as all
numbers with the digits of the format are (`Instruction.Carries`). Where the format lacks it, the
constant is the larger or the smaller neighbour (`Module.undercharges_meter`), and what is lost is
at most half a unit of the last place.

A cost past the largest one is charged as the largest one. For integers that is an error, as their
limits lie below it; for floats it is not.
-/

set_option autoImplicit false

namespace WasmMeter

open Instruction MeterOptions

/-! ### Numbers of constants -/

/-- The format of a type of floats. -/
def ValueType.format? : ValueType → Option FloatFormat
  | .f32 => some .binary32
  | .f64 => some .binary64
  | .i32 | .i64 => none

/-- The bits of a float constant. -/
def Instruction.floatBits (instruction : Instruction) : Nat :=
  match instruction.immediate with
  | some (.uint32 bytes) => Bytes.littleEndian bytes.toList
  | some (.uint64 bytes) => Bytes.littleEndian bytes.toList
  | _ => 0

/-- The number that a constant has: an integer, or what the bits of a float stand for. -/
def Instruction.number? (instruction : Instruction) : Option ℚ :=
  match instruction.immediate with
  | some (.varInt32 value) => some value.toInt
  | some (.varInt64 value) => some value.toInt
  | some (.uint32 _) => FloatFormat.binary32.value? instruction.floatBits
  | some (.uint64 _) => FloatFormat.binary64.value? instruction.floatBits
  | _ => none

/-- What the bits of a float carry of a total, which counts as the largest cost if it is past that:
the nearest number of the format. It is the total where the format has it, as it does if the total
has no more digits than the format, and it loses at most half a unit of the last place. -/
structure FloatFormat.Carries (format : FloatFormat) (bits total : Nat) (v : ℚ) : Prop where
  nearest : format.IsNearest (min total maxCost : Nat) bits v
  kept : total ≤ maxCost → (∃ other, format.value? other = some (total : ℚ)) → v = total
  short : total < 2 ^ (format.fractionBits + 1) → v = total
  loss : |v - (min total maxCost : Nat)| * 2 ^ (format.fractionBits + 1) ≤ (min total maxCost : Nat)

/-- What a constant carries of a total: an integer is the total, and a float is rounded. -/
structure Instruction.Carries (constant : Instruction) (type : ValueType) (total : Nat) (v : ℚ) :
    Prop where
  number : constant.number? = some v
  integer : type.format? = none → v = total
  float : ∀ format ∈ type.format?, format.Carries constant.floatBits total v

theorem number?_of_integer? {instruction : Instruction} {i : Int}
    (h : instruction.integer? = some i) : instruction.number? = some (i : ℚ) := by
  unfold integer? at h
  unfold number?
  cases himmediate : instruction.immediate with
  | none =>
    rw [himmediate] at h
    cases h
  | some immediate =>
    rw [himmediate] at h
    cases immediate with
    | varInt32 value | varInt64 value =>
      cases h
      rfl
    | _ => cases h

/-- The bits of a constant are those that its amount is rounded to. -/
theorem floatBits_amount {type : ValueType} {format : FloatFormat} (h : type.format? = some format)
    (amount : Nat) :
    (Instruction.amount type amount).floatBits = format.bits (.finite ⟨false, amount, 0⟩) := by
  have hword (width n : Nat) (hn : n < 256 ^ width) :
      Bytes.littleEndian (Bytes.word width n).toList = n := by
    have hself := (Bytes.ofNat_eq_iff (Bytes.ofNat width n) n).mp (by rw [Bytes.length_ofNat])
    rw [Bytes.length_ofNat, Nat.mod_eq_of_lt hn] at hself
    rw [Bytes.toList_word, ← hself]
  cases type <;> cases h
  · exact hword 4 _ (FloatFormat.bits_lt .binary32 _)
  · exact hword 8 _ (FloatFormat.bits_lt .binary64 _)

theorem number?_amount {type : ValueType} {format : FloatFormat} (h : type.format? = some format)
    (amount : Nat) :
    (Instruction.amount type amount).number? =
      format.value? (Instruction.amount type amount).floatBits := by
  cases type <;> cases h <;> rfl

/-- The types without a limit are those of floats. -/
theorem isNone_limit? (options : MeterOptions) :
    options.limit?.isNone = options.meterType.format?.isSome := by
  unfold limit?
  cases options.meterType <;> rfl

/-- The constant of an integer carries a total within the limit. -/
theorem carries_of_limit {options : MeterOptions} {limit total : Nat} (h : limit ∈ options.limit?)
    (htotal : total ≤ limit) :
    (Instruction.amount options.meterType total).Carries options.meterType total total := by
  have hnone : options.meterType.format? = none := by
    have hlimit := isNone_limit? options
    rw [h] at hlimit
    exact Option.not_isSome_iff_eq_none.mp (Bool.eq_false_iff.mp hlimit.symm)
  refine ⟨?_, fun _ ↦ rfl, fun format hformat ↦ ?_⟩
  · rw [number?_of_integer? (integer?_amount h htotal), Int.cast_natCast]
  · rw [hnone] at hformat
    cases hformat

/-- The bits of a float carry any total that is not zero. -/
theorem FloatFormat.exists_carries_bits (format : FloatFormat) {total : Nat} (htotal : total ≠ 0) :
    ∃ v, format.Carries (format.bits (.finite ⟨false, min total maxCost, 0⟩)) total v := by
  have hne : min total maxCost ≠ 0 := by
    have hpos : 0 < maxCost := by decide
    omega
  have hsmall : min total maxCost < 2 ^ 127 := lt_of_le_of_lt (Nat.min_le_right _ _) (by decide)
  have hnearest := isNearest_bits hne hsmall format
  refine ⟨_, hnearest, fun hle ⟨other, hother⟩ ↦ ?_, fun hshort ↦ ?_,
    abs_roundedUnits_mul_sub_le hne format⟩
  · rw [Nat.min_eq_left hle] at hnearest ⊢
    exact hnearest.eq_of_value? hother
  · have hle : total ≤ maxCost := by
      have hdigits : 2 ^ (format.fractionBits + 1) ≤ maxCost := by cases format <;> decide
      omega
    rw [Nat.min_eq_left hle]
    exact roundedUnits_mul_unitOf hshort

/-- The constant of a float carries any total that is not zero. -/
theorem exists_carries_of_format? {type : ValueType} {format : FloatFormat}
    (h : type.format? = some format) {total : Nat} (htotal : total ≠ 0) :
    ∃ v, (Instruction.amount type (min total maxCost)).Carries type total v := by
  obtain ⟨v, hv⟩ := format.exists_carries_bits htotal
  rw [← floatBits_amount h] at hv
  refine ⟨v, ?_, ?_, fun other hother ↦ ?_⟩
  · rw [number?_amount h, hv.nearest.value]
  · rw [h]
    exact nofun
  · rw [h] at hother
    cases hother
    exact hv

/-- The constant of a charge carries the total that has to be charged. -/
theorem exists_carries {options : MeterOptions} {total : Nat} (htotal : total ≠ 0)
    (hwithin : ∀ limit ∈ options.limit?, min total maxCost ≤ limit) :
    ∃ v, (Instruction.amount options.meterType (min total maxCost)).Carries
      options.meterType total v := by
  cases hlimit : options.limit? with
  | none =>
    have hfloat := isNone_limit? options
    rw [hlimit] at hfloat
    obtain ⟨format, hformat⟩ := Option.isSome_iff_exists.mp hfloat.symm
    exact exists_carries_of_format? hformat htotal
  | some limit =>
    -- The total is not cut off, or the amount would be past the limit.
    have hle := hwithin limit hlimit
    have hexact := eq_of_min_maxCost_le rfl hle (limit_lt_maxCost hlimit)
    rw [hexact] at hle ⊢
    exact ⟨total, carries_of_limit hlimit hle⟩

/-! ### Metered code -/

namespace MeterOptions

/-- A block of a cost: behind its charge, if it costs anything. No charge is more than the largest
cost. -/
def cappedBlock (options : MeterOptions) (meterIndex : UInt32) (cost : Nat)
    (block : List Instruction) : List Instruction :=
  (if cost = 0 then []
    else options.charge (min (cost + options.exactOverhead) maxCost) meterIndex) ++
    block.map (mapCallee (shifted meterIndex))

/-- Metered code is the capped blocks one behind the other. -/
theorem Charged.eq_cappedBlocks {options : MeterOptions} {meterIndex : UInt32} {start : Nat}
    {bs : List (List Instruction)} {code : List Instruction}
    (h : Charged options meterIndex start bs code) :
    code = (List.zipWith (options.cappedBlock meterIndex)
      (options.costTable.blockCosts start bs) bs).flatten := by
  induction h with
  | nil => rfl
  | free hfree _ _ ih =>
    rw [CostTable.blockCosts, List.zipWith_cons_cons, List.flatten_cons, ← ih, cappedBlock,
      if_pos hfree]
    rfl
  | paid hcost hamount _ _ _ ih =>
    rw [CostTable.blockCosts, List.zipWith_cons_cons, List.flatten_cons, ← ih, cappedBlock,
      if_neg hcost, hamount, List.append_assoc]
    rfl

/-- The constants of all charges carry their totals. -/
theorem Charged.exists_carries {options : MeterOptions} {meterIndex : UInt32} {start : Nat}
    {bs : List (List Instruction)} {code : List Instruction}
    (h : Charged options meterIndex start bs code) :
    ∀ cost ∈ options.costTable.blockCosts start bs, cost ≠ 0 →
      ∃ v, (Instruction.amount options.meterType
        (min (cost + options.exactOverhead) maxCost)).Carries options.meterType
          (cost + options.exactOverhead) v := by
  induction h with
  | nil => exact nofun
  | free hfree _ _ ih =>
    intro cost hmem hne
    rcases List.mem_cons.mp hmem with rfl | hlater
    · exact absurd hfree hne
    · exact ih cost hlater hne
  | paid _ hamount hwithin _ _ ih =>
    intro cost hmem hne
    rcases List.mem_cons.mp hmem with rfl | hlater
    · rw [hamount] at hwithin
      exact WasmMeter.exists_carries (by omega) hwithin
    · exact ih cost hlater hne

end MeterOptions

/-- Metered code consists of the blocks of the code, in the only way to cut it into blocks, each
behind a charge unless it costs nothing. The constant of a charge carries the exact cost of the
block and of the charge. -/
structure ChargesRounded (options : MeterOptions) (meterIndex : UInt32) (start : Nat)
    (code metered : List Instruction) (bs : List (List Instruction)) : Prop where
  split : IsSplit code bs
  unique : ∀ other, IsSplit code other → other = bs
  charged : metered = (List.zipWith (options.cappedBlock meterIndex)
    (options.costTable.blockCosts start bs) bs).flatten
  carried : ∀ cost ∈ options.costTable.blockCosts start bs, cost ≠ 0 →
    ∃ v, (Instruction.amount options.meterType
      (min (cost + options.exactOverhead) maxCost)).Carries options.meterType
        (cost + options.exactOverhead) v

theorem MeterOptions.Charged.chargesRounded {options : MeterOptions} {meterIndex : UInt32}
    {start : Nat} {code metered : List Instruction}
    (h : Charged options meterIndex start (blocks code) metered) :
    ChargesRounded options meterIndex start code metered (blocks code) :=
  ⟨isSplit_blocks code, fun _ ↦ IsSplit.eq_blocks, h.eq_cappedBlocks, h.exists_carries⟩

/-! ### Totals past the limit -/

/-- Metering comes as far as the block behind some blocks. -/
structure Reaches (options : MeterOptions) (m : Module) (before : List (Nat × List Instruction)) :
    Prop where
  imports : ¬m.Imports options.importModule options.importField
  references : ¬m.RefersTo lastIndex
  signatures : ∀ body < (m.code?.getD []).length, options.signatureAfter? m body ≠ none
  blocks : ∀ earlier ∈ before, options.blockFailure? earlier = none

/-- A block whose total is past the limit is refused. -/
theorem blockFailure?_of_limit_lt {options : MeterOptions} {costed : Nat × List Instruction}
    {limit : Nat} (hlimit : limit ∈ options.limit?) (hcost : costed.1 ≠ 0)
    (hlt : limit < costed.1 + options.exactOverhead) :
    options.blockFailure? costed = some (.costOverflow
      (UInt64.ofNat (min (costed.1 + options.exactOverhead) maxCost)) options.meterType) :=
  if_pos ⟨hcost, limit, hlimit, hlt⟩

/-- No total is past a limit that there is not. -/
theorem blockFailure?_ne_costOverflow {options : MeterOptions} (h : options.limit? = none)
    (costed : Nat × List Instruction) (cost : UInt64) (type : ValueType) :
    options.blockFailure? costed ≠ some (.costOverflow cost type) := by
  have hnone : ¬(costed.1 ≠ 0 ∧
      ∃ limit ∈ options.limit?, limit < costed.1 + options.exactOverhead) :=
    fun ⟨_, limit, hlimit, _⟩ ↦ by rw [h] at hlimit; cases hlimit
  unfold blockFailure?
  rw [if_neg hnone]
  split_ifs <;> exact nofun

/-! ### Metered modules -/

/-- In a metered module every block that costs anything stands behind a charge whose constant
carries the exact cost of the block and of the charge: integers exactly, floats as the nearest
number. A total past the largest integer is an error instead, and floats know no such error. -/
theorem Module.meter_carries (m : Module) (options : MeterOptions) :
    (∀ m' bodies, m.meter options = .ok m' → m.code? = some bodies →
      ∃ bodies', m'.code? = some bodies' ∧
        ∀ index body, bodies[index]? = some body → ∃ body' signature bs,
          bodies'[index]? = some body' ∧
          signatureOf? m' index = some signature ∧
          (∀ original, signatureOf? m index = some original → signature = original) ∧
          ChargesRounded options (UInt32.ofNat m.importedFunctions)
            (options.costTable.exactSignatureCost signature +
              options.costTable.exactLocalsCost body.locals) body.code body'.code bs) ∧
    (∀ before costed behind limit, options.costedBlocks m = before ++ costed :: behind →
      limit ∈ options.limit? → costed.1 ≠ 0 → limit < costed.1 + options.exactOverhead →
      (∀ m', m.meter options ≠ .ok m') ∧
        (Reaches options m before → m.meter options = .error (.costOverflow
          (UInt64.ofNat (min (costed.1 + options.exactOverhead) maxCost)) options.meterType))) ∧
    (options.meterType = .f32 ∨ options.meterType = .f64 →
      ∀ cost type, m.meter options ≠ .error (.costOverflow cost type)) := by
  refine ⟨fun m' bodies h hbodies ↦ ?_,
    fun before costed behind limit hblocks hlimit hcost hlt ↦ ?_, fun htype cost type herror ↦ ?_⟩
  · obtain ⟨bodies', hbodies', -⟩ := exists_bodies_of_meter_eq_ok h hbodies
    refine ⟨bodies', hbodies', fun index body hbody ↦ ?_⟩
    obtain ⟨signature, code, hbody', hsignature, horiginal, hcharged⟩ :=
      exists_charged_of_meter_eq_ok h hbodies hbodies' hbody
    rw [meterIndexOf_eq] at hcharged
    exact ⟨_, signature, blocks body.code, hbody', hsignature, horiginal, hcharged.chargesRounded⟩
  · have hblock := blockFailure?_of_limit_lt hlimit hcost hlt
    refine ⟨fun m' hok ↦ ?_, fun hreaches ↦ ?_⟩
    · rw [meter_eq, outcome_eq_ok_iff, meterError?_eq_none_iff] at hok
      have hnone := hok.1.blocks costed (by rw [hblocks]; simp)
      rw [hblock] at hnone
      cases hnone
    · rw [meter_eq, outcome_eq_error_iff, meterError?_eq_some_iff]
      exact .block hreaches.imports hreaches.references hreaches.signatures hblocks hreaches.blocks
        hblock
  · have hnone : options.limit? = none := by
      unfold limit?
      rcases htype with h | h <;> rw [h]
    rw [meter_eq, outcome_eq_error_iff, meterError?_eq_some_iff] at herror
    cases herror with
    | block _ _ _ _ _ hblock => exact blockFailure?_ne_costOverflow hnone _ _ _ hblock

/-- Options with prices of instructions. -/
def MeterOptions.pricing (prices : List (String × UInt64)) (type : ValueType) : MeterOptions :=
  ⟨[("code", .table [("code", .table (prices.map fun (name, cost) ↦ (name, .flat cost)))])],
    "metering", "usegas", type⟩

/-- A module with one function, which ends at once. -/
def Module.ending : Module :=
  ⟨.standard, [.types [⟨.func, [], none⟩], .functions [0], .code [⟨[], [⟨"end", none, none⟩]⟩]]⟩

/-- What `Module.ending` becomes if ending costs `2 ^ 24 + 1` in floats of thirty-two bits. -/
def Module.endingMetered : Module :=
  ⟨.standard, [.types [⟨.func, [], none⟩, ⟨.func, [.f32], none⟩],
    .imports [⟨"metering", "usegas", .function 1⟩], .functions [0],
    .code [⟨[], [⟨"const", some .f32, some (.uint32 #v[0x00, 0x00, 0x80, 0x4b])⟩, .call 0,
      ⟨"end", none, none⟩]⟩]]⟩

/-- The bytes of `Module.ending`. -/
def endingBytes : Bytes :=
  [0x00, 0x61, 0x73, 0x6d, 0x01, 0x00, 0x00, 0x00, 0x01, 0x04, 0x01, 0x60, 0x00, 0x00, 0x03, 0x02,
    0x01, 0x00, 0x0a, 0x04, 0x01, 0x02, 0x00, 0x0b]

theorem Module.meter_ending :
    ending.meter (pricing [("end", 16777217)] .f32) = .ok endingMetered := by
  rw [meter_eq]
  decide +kernel

/-- The price of a call is the largest cost, as is that of the end. -/
def MeterOptions.unpayable : MeterOptions :=
  pricing [("call", 18446744073709551615), ("end", 18446744073709551615)] .f64

/-- What `Module.ending` becomes if a call and the end have the largest cost each, in floats of
sixty-four bits. -/
def Module.endingUnpaid : Module :=
  ⟨.standard, [.types [⟨.func, [], none⟩, ⟨.func, [.f64], none⟩],
    .imports [⟨"metering", "usegas", .function 1⟩], .functions [0],
    .code [⟨[],
      [⟨"const", some .f64, some (.uint64 #v[0x00, 0x00, 0x00, 0x00, 0x00, 0x00, 0xf0, 0x43])⟩,
        .call 0, ⟨"end", none, none⟩]⟩]]⟩

/-- Floats may be charged less than the exact total. A cost of `2 ^ 24 + 1` is rounded down, as it
is in the middle between two floats of thirty-two bits. A total past the largest cost is charged as
the largest one, which is rounded to `2 ^ 64`. -/
theorem Module.undercharges_meter :
    Module.decode endingBytes = .ok ending ∧
      (ending.meter (pricing [("end", 16777217)] .f32) = .ok endingMetered ∧
        (pricing [("end", 16777217)] .f32).costedBlocks ending =
          [(16777217, [⟨"end", none, none⟩])] ∧
        (⟨"const", some .f32, some (.uint32 #v[0x00, 0x00, 0x80, 0x4b])⟩ : Instruction).number? =
          some 16777216 ∧
        (16777216 : ℚ) < (16777217 + (pricing [("end", 16777217)] .f32).exactOverhead : Nat)) ∧
      ending.meter .unpayable = .ok endingUnpaid ∧
        MeterOptions.unpayable.costedBlocks ending =
          [(18446744073709551615, [⟨"end", none, none⟩])] ∧
        (⟨"const", some .f64, some (.uint64 #v[0x00, 0x00, 0x00, 0x00, 0x00, 0x00, 0xf0, 0x43])⟩ :
          Instruction).number? = some 18446744073709551616 ∧
        (18446744073709551616 : ℚ) <
          (18446744073709551615 + MeterOptions.unpayable.exactOverhead : Nat) := by
  have hfree : (pricing [("end", 16777217)] .f32).exactOverhead = 0 := by decide +kernel
  have hoverhead : MeterOptions.unpayable.exactOverhead = 18446744073709551615 := by decide +kernel
  have hmeter : ending.meter .unpayable = .ok endingUnpaid := by
    rw [meter_eq]
    decide +kernel
  refine ⟨by decide +kernel, ⟨meter_ending, by decide +kernel, by decide +kernel, ?_⟩, hmeter,
    by decide +kernel, by decide +kernel, ?_⟩
  · rw [hfree]
    norm_num
  · rw [hoverhead]
    norm_num

/-- `Module.ending` is metered in floats and, at a price that no integer of thirty-two bits has, not
in integers. -/
theorem Module.meter_carries_ending :
    (ending.meter (pricing [("end", 16777217)] .f32) = .ok endingMetered ∧
      ending.code? = some [⟨[], [⟨"end", none, none⟩]⟩] ∧
      ∃ bodies', endingMetered.code? = some bodies' ∧
        ∀ (index : Nat) (body : FunctionBody),
          [⟨[], [⟨"end", none, none⟩]⟩][index]? = some body → ∃ body' signature bs,
            bodies'[index]? = some body' ∧
            signatureOf? endingMetered index = some signature ∧
            (∀ original, signatureOf? ending index = some original → signature = original) ∧
            ChargesRounded (pricing [("end", 16777217)] .f32)
              (UInt32.ofNat ending.importedFunctions)
              ((pricing [("end", 16777217)] .f32).costTable.exactSignatureCost signature +
                (pricing [("end", 16777217)] .f32).costTable.exactLocalsCost body.locals)
              body.code body'.code bs) ∧
      ((pricing [("end", 2147483648)] .i32).costedBlocks ending =
          [] ++ (2147483648, [⟨"end", none, none⟩]) :: [] ∧
        0x7fffffff ∈ (pricing [("end", 2147483648)] .i32).limit? ∧
        0x7fffffff < 2147483648 + (pricing [("end", 2147483648)] .i32).exactOverhead ∧
        Reaches (pricing [("end", 2147483648)] .i32) ending [] ∧
        ending.meter (pricing [("end", 2147483648)] .i32) = .error (.costOverflow
          (UInt64.ofNat (min (2147483648 + (pricing [("end", 2147483648)] .i32).exactOverhead)
            maxCost)) .i32)) ∧
      ∀ cost type, ending.meter (pricing [("end", 16777217)] .f32) ≠
        .error (.costOverflow cost type) := by
  have hblocks : (pricing [("end", 2147483648)] .i32).costedBlocks ending =
      [] ++ (2147483648, [⟨"end", none, none⟩]) :: [] := by decide +kernel
  have hlt : 0x7fffffff < 2147483648 + (pricing [("end", 2147483648)] .i32).exactOverhead := by
    omega
  have hreaches : Reaches (pricing [("end", 2147483648)] .i32) ending [] := by
    refine ⟨fun ⟨entry, hentry, _⟩ ↦ ?_, ?_, ?_, nofun⟩
    · cases hentry
    · rintro (⟨entry, hentry, -⟩ | ⟨segment, hsegment, -⟩ | hstart)
      · cases hentry
      · cases hsegment
      · cases hstart
    · decide +kernel
  obtain ⟨hmetered, -, hnever⟩ := meter_carries ending (pricing [("end", 16777217)] .f32)
  obtain ⟨-, hrefused, -⟩ := meter_carries ending (pricing [("end", 2147483648)] .i32)
  exact ⟨⟨meter_ending, rfl, hmetered _ _ meter_ending rfl⟩,
    ⟨hblocks, rfl, hlt, hreaches,
      (hrefused _ _ _ _ hblocks rfl (by decide) hlt).2 hreaches⟩, hnever (.inl rfl)⟩

end WasmMeter
