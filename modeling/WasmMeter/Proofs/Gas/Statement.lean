import WasmMeter.Gas.Metering
import WasmMeter.Proofs.Listing.Reading

/-!
# Statements are read as charges

A statement is put together as text and read as a listing. Its words spell a charge, so this is what
is read: a constant of the type of the meter, and a call of the metering function
(`parse_statementText`). The amount comes through unchanged where it is within the limit of the
type, and for floats as it is rounded.
-/

set_option autoImplicit false

namespace WasmMeter

/-! ### Charges -/

/-- The immediate of a constant of an amount. -/
def ValueType.amountImmediate (type : ValueType) (amount : Nat) : Immediate :=
  match type with
  | .i32 => .varInt32 (Int32.ofInt amount)
  | .i64 => .varInt64 (Int64.ofInt amount)
  | .f32 => .uint32 (Bytes.word 4 (FloatFormat.binary32.bits (.finite ⟨false, amount, 0⟩)))
  | .f64 => .uint64 (Bytes.word 8 (FloatFormat.binary64.bits (.finite ⟨false, amount, 0⟩)))

/-- The instruction that puts an amount in front of a call of the metering function. -/
def Instruction.amount (type : ValueType) (amount : Nat) : Instruction :=
  (typed type "const").withImmediate (type.amountImmediate amount)

/-- The call of a function. -/
def Instruction.call (function : UInt32) : Instruction :=
  ⟨"call", none, some (.varUint32 function)⟩

/-- The instructions that charge an amount. -/
def MeterOptions.charge (options : MeterOptions) (amount : Nat) (meterIndex : UInt32) :
    List Instruction :=
  [.amount options.meterType amount, .call meterIndex]

/-! ### The words of a statement -/

namespace Listing

/-- A statement has four words. -/
theorem words_statementText (options : MeterOptions) (cost : UInt64) (meterIndex : UInt32) :
    words (options.statementText cost meterIndex) =
      [options.meterType.name ++ ".const", Numeral.text cost.toNat, "call",
        Numeral.text meterIndex.toNat] := by
  have htext : (options.statementText cost meterIndex).toList =
      (options.meterType.name ++ ".const").toList ++ ' ' :: (Numeral.digits cost.toNat ++
        ' ' :: ("call".toList ++ ' ' :: Numeral.digits meterIndex.toNat)) := by
    simp [MeterOptions.statementText, Numeral.text]
  have hopcode : (options.meterType.name ++ ".const").toList.any Text.isBlank = false := by
    cases options.meterType <;> decide
  have hopcodeNe : (options.meterType.name ++ ".const").toList ≠ [] := by
    cases options.meterType <;> decide
  rw [words, htext, Text.words_append_space (Text.not_isBlank_of_any_eq_false hopcode) hopcodeNe,
    Text.words_append_space (fun _ ↦ Numeral.not_isBlank_of_mem_digits) (Numeral.digits_ne_nil _),
    Text.words_append_space (Text.not_isBlank_of_any_eq_false rfl) (by decide),
    Text.words_of_not_isBlank (fun _ ↦ Numeral.not_isBlank_of_mem_digits) (Numeral.digits_ne_nil _)]
  simp [Numeral.text]

/-! ### Numbers -/

theorem spellsIndex_text (n : UInt32) : SpellsIndex (Numeral.text n.toNat) n := by
  rw [SpellsIndex, Numeral.text, String.toList_ofList, Numeral.unsigned?_digits n.toNat_lt]

theorem int32?_text {n : Nat} (hn : n ≤ 0x7fffffff) :
    int32? (Numeral.text n) = some (Int32.ofInt n) := by
  rw [int32?, Numeral.text, String.toList_ofList,
    Numeral.signed?_digits (show n < 2 ^ (32 - 1) by omega)]
  rfl

theorem int64?_text {n : Nat} (hn : n ≤ 0x7fffffffffffffff) :
    int64? (Numeral.text n) = some (Int64.ofInt n) := by
  rw [int64?, Numeral.text, String.toList_ofList,
    Numeral.signed?_digits (show n < 2 ^ (64 - 1) by omega)]
  rfl

/-- The digits of a number are the float literal of this number. -/
theorem float?_text (format : FloatFormat) (n : Nat) :
    float? format (Numeral.text n) =
      some (Bytes.word format.width (format.bits (.finite ⟨false, n, 0⟩))) := by
  rw [float?, Numeral.text, String.toList_ofList, FloatLiteral.parse?_digits]
  rfl

/-! ### Statements -/

theorem hasOpcode_amount (type : ValueType) (amount : Nat) :
    (Instruction.amount type amount).HasOpcode := by
  refine ⟨?_, nofun⟩
  cases type <;> exact ⟨_, Opcode.mem_table_of_byte? rfl⟩

theorem hasOpcode_call (function : UInt32) : (Instruction.call function).HasOpcode := by
  have hname : '.' ∉ "call".toList := by decide
  exact ⟨⟨_, Opcode.mem_table_of_byte? rfl⟩, fun _ ↦ hname⟩

/-- The constant of a statement. -/
theorem spelledBy_amount {options : MeterOptions} {amount : Nat}
    (hlimit : ∀ limit ∈ options.limit?, amount ≤ limit) :
    (Instruction.amount options.meterType amount).SpelledBy
      [options.meterType.name ++ ".const", Numeral.text amount] := by
  cases htype : options.meterType with
  | i32 =>
    have hamount : amount ≤ 0x7fffffff := hlimit _ (by rw [MeterOptions.limit?, htype]; rfl)
    exact .operands (hasOpcode_amount _ amount) rfl rfl
      (.varInt32 (int32?_eq_some_iff.mp (int32?_text hamount)))
  | i64 =>
    have hamount : amount ≤ 0x7fffffffffffffff := hlimit _ (by rw [MeterOptions.limit?, htype]; rfl)
    exact .operands (hasOpcode_amount _ amount) rfl rfl
      (.varInt64 (int64?_eq_some_iff.mp (int64?_text hamount)))
  | f32 =>
    exact .operands (hasOpcode_amount _ amount) rfl rfl
      (.uint32 (float?_eq_some_iff.mp (float?_text .binary32 amount)))
  | f64 =>
    exact .operands (hasOpcode_amount _ amount) rfl rfl
      (.uint64 (float?_eq_some_iff.mp (float?_text .binary64 amount)))

/-- The call of a statement. -/
theorem spelledBy_call (meterIndex : UInt32) :
    (Instruction.call meterIndex).SpelledBy ["call", Numeral.text meterIndex.toNat] :=
  .operands (hasOpcode_call meterIndex) rfl rfl (.varUint32 (spellsIndex_text meterIndex))

/-- A statement is read as a charge of its cost, unless the cost is past the limit. -/
theorem parse_statementText {options : MeterOptions} {cost : UInt64} {meterIndex : UInt32}
    (hlimit : ∀ limit ∈ options.limit?, cost.toNat ≤ limit) :
    parse (options.statementText cost meterIndex) = .ok (options.charge cost.toNat meterIndex) := by
  have hconstant : (Instruction.amount options.meterType cost.toNat).EndsBefore
      ["call", Numeral.text meterIndex.toNat] := by
    cases options.meterType <;> exact nofun
  have hcall : (Instruction.call meterIndex).EndsBefore [] := nofun
  rw [parse_eq_ok_iff_lists_words, words_statementText]
  exact .cons (spelledBy_amount hlimit) hconstant (.cons (spelledBy_call meterIndex) hcall .nil)

end Listing

end WasmMeter
