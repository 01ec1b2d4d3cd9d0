import WasmMeter.Proofs.Binary.Forms
import WasmMeter.Proofs.Opcode
import WasmMeter.Proofs.Text.Utf8

/-!
# Decoders read the grammar

Every decoder reads exactly the forms of its node (`Instruction.reads`, `FunctionBody.reads`,
`Section.reads`), and `Module.decode_eq_ok_iff` says so of whole modules.
-/

set_option autoImplicit false

namespace WasmMeter

open Leb128

/-! ### Bytes, numbers and texts -/

namespace Decoder

variable {α β : Type}

theorem reads_byte : Reads byte fun b ↦ {[b]} := by
  intro input b rest
  rw [exists_mem_singleton_append_iff]
  cases input with
  | nil => simp [byte, Reader.next]
  | cons c later => simp [byte, Reader.next, eq_comm]

/-- A decoder of values that are a byte each. -/
theorem reads_ofByte {f : UInt8 → Except DecodeError α} {toByte : α → UInt8}
    (hf : ∀ b a, f b = .ok a ↔ toByte a = b) : Reads (ofByte f) fun a ↦ {[toByte a]} := by
  refine ReadsIn.determined reads_byte (fun b mid a rest ↦ ?_) fun _ ↦ Iff.rfl
  rw [← hf]
  cases f b <;> simp [Reader.pure_apply, Reader.fail]

theorem reads_bytes (count : Nat) :
    ReadsOnly (fun content ↦ content.length = count) (bytes count) fun content ↦ {content} := by
  intro input content rest
  rw [exists_mem_singleton_append_iff, true_and]
  exact Reader.exactly_eq_ok_iff

theorem reads_word (count : Nat) : Reads (word count) fun w ↦ {w.toList} := by
  refine ReadsIn.determined (reads_bytes count) (fun content mid w rest ↦ ?_) fun w ↦ ?_
  · rw [← Bytes.toWord?_eq_some_iff]
    cases Bytes.toWord? count content <;> simp [Reader.pure_apply, Reader.fail]
  · simp

theorem reads_unsigned (width : Width) : Reads (unsigned width) (unsignedForms width) := by
  intro input n rest
  rw [true_and, true_and, ← unsigned_eq_ok_iff]
  simp only [unsigned, Reader.mapError]
  cases Leb128.unsigned width input <;> simp

theorem reads_signed (width : Width) : Reads (signed width) (signedForms width) := by
  intro input i rest
  rw [true_and, true_and, ← signed_eq_ok_iff]
  simp only [signed, Reader.mapError]
  cases Leb128.signed width input <;> simp

/-- A decoder of numbers of which each stands for one number of another type. -/
theorem reads_map {p : Decoder α} {f : α → β} {g : β → α} {L : α → Language UInt8}
    (hp : Reads p L) (hfg : ∀ b, f (g b) = b) (hgf : ∀ a, (∃ word, word ∈ L a) → g (f a) = a) :
    Reads (f <$> p) fun b ↦ L (g b) := by
  intro input b rest
  rw [true_and, true_and, Reader.map_eq_ok_iff]
  constructor
  · rintro ⟨a, ha, rfl⟩
    obtain ⟨word, hword, happend⟩ := hp.eq_ok_iff.mp ha
    rw [← hgf a ⟨word, hword⟩] at hword
    exact ⟨word, hword, happend⟩
  · exact fun hword ↦ ⟨g b, hp.eq_ok_iff.mpr hword, hfg b⟩

theorem reads_varUint1 : Reads varUint1 fun n ↦ unsignedForms .w1 n.toNat := by
  refine reads_map (reads_unsigned .w1) (fun n ↦ UInt8.ofNat_toNat) ?_
  rintro n ⟨word, -, -, -, hn⟩
  exact UInt8.toNat_ofNat_of_lt' (lt_trans hn (by decide))

theorem reads_varUint32 : Reads varUint32 indexForms := by
  refine reads_map (reads_unsigned .w32) (fun n ↦ UInt32.ofNat_toNat) ?_
  rintro n ⟨word, -, -, -, hn⟩
  exact UInt32.toNat_ofNat_of_lt' hn

theorem reads_varInt32 : Reads varInt32 fun i ↦ signedForms .w32 i.toInt := by
  refine reads_map (reads_signed .w32) (fun i ↦ Int32.ofInt_toInt i) ?_
  rintro i ⟨word, -, -, -, hlower, hupper⟩
  exact Int32.toInt_ofInt_of_le hlower hupper

theorem reads_varInt64 : Reads varInt64 fun i ↦ signedForms .w64 i.toInt := by
  refine reads_map (reads_signed .w64) (fun i ↦ Int64.ofInt_toInt i) ?_
  rintro i ⟨word, -, -, -, hlower, hupper⟩
  exact Int64.toInt_ofInt_of_le hlower hupper

/-- A text of a number of bytes. Only the bytes to which it is encoded decode to it. -/
theorem reads_text (count : Nat) :
    ReadsOnly (fun t ↦ (Utf8.encode t).length = count) (text count) fun t ↦ {Utf8.encode t} := by
  refine ReadsIn.determined (reads_bytes count) (fun content mid t rest ↦ ?_) fun _ ↦ Iff.rfl
  rw [@eq_comm _ (Utf8.encode t), ← Utf8.decode_eq_ok_iff]
  cases Utf8.decode content <;> simp [Reader.pure_apply, Reader.fail]

/-- A decoder that reads a number, and then an answer of which the number is the size. -/
theorem reads_sized {size : α → Nat} {f : Nat → Decoder α} {L : α → Language UInt8}
    (hf : ∀ count, ReadsOnly (fun a ↦ size a = count) (f count) L) :
    Reads (do f (← varUint32).toNat) fun a ↦ unsignedForms .w32 (size a) * L a := by
  intro input a rest
  rw [true_and, true_and, Reader.bind_eq_ok_iff]
  constructor
  · rintro ⟨n, mid, hn, ha⟩
    obtain ⟨x, hx, rfl⟩ := reads_varUint32.eq_ok_iff.mp hn
    obtain ⟨hsize, y, hy, rfl⟩ := (hf n.toNat).eq_ok_iff.mp ha
    rw [indexForms, ← hsize] at hx
    exact ⟨x ++ y, Language.append_mem_mul hx hy, List.append_assoc x y rest⟩
  · rintro ⟨word, hword, rfl⟩
    obtain ⟨x, hx, y, hy, rfl⟩ := Language.mem_mul.mp hword
    have hsize : (UInt32.ofNat (size a)).toNat = size a := UInt32.toNat_ofNat_of_lt' hx.2.2.2
    refine ⟨UInt32.ofNat (size a), y ++ rest, reads_varUint32.eq_ok_iff.mpr ?_, ?_⟩
    · exact ⟨x, by rwa [indexForms, hsize], (List.append_assoc x y rest).symm⟩
    · exact (hf _).eq_ok_iff.mpr ⟨hsize.symm, y, hy, rfl⟩

theorem reads_countedBytes : Reads countedBytes sizedForms := reads_sized reads_bytes

theorem reads_countedText : Reads countedText textForms := reads_sized reads_text

/-- A list behind the number of its elements. -/
theorem reads_counted {p : Decoder α} {L : α → Language UInt8} (hp : Reads p L) :
    Reads (counted p) (countedForms L) := reads_sized hp.times

/-- What is read from a part of the input that stands behind its length. -/
theorem region_eq_ok_iff {content : Decoder α} {input rest left : Bytes} {a : α} :
    (∃ size mid, varUint32 input = .ok size mid ∧
      region size.toNat content mid = .ok (a, left) rest) ↔
      ∃ block, content block = .ok a left ∧ ∃ word ∈ sizedForms block, word ++ rest = input := by
  have hregion {count : Nat} {mid : Bytes} : region count content mid = .ok (a, left) rest ↔
      ∃ block, bytes count mid = .ok block rest ∧ content block = .ok a left := by
    rw [region, Reader.bind_eq_ok_iff]
    simp only [Reader.inside]
    constructor
    · rintro ⟨block, _, hblock, hinside⟩
      cases hcontent : content block <;> rw [hcontent] at hinside <;> cases hinside
      exact ⟨block, hblock, hcontent⟩
    · rintro ⟨block, hblock, hcontent⟩
      exact ⟨block, rest, hblock, by rw [hcontent]⟩
  have hsized {block : Bytes} : (∃ size mid, varUint32 input = .ok size mid ∧
      bytes size.toNat mid = .ok block rest) ↔ ∃ word ∈ sizedForms block, word ++ rest = input := by
    rw [← reads_countedBytes.eq_ok_iff, countedBytes, Reader.bind_eq_ok_iff]
  simp only [hregion]
  constructor
  · rintro ⟨size, mid, hsize, block, hblock, hcontent⟩
    exact ⟨block, hcontent, hsized.mp ⟨size, mid, hsize, hblock⟩⟩
  · rintro ⟨block, hcontent, hword⟩
    obtain ⟨size, mid, hsize, hblock⟩ := hsized.mpr hword
    exact ⟨size, mid, hsize, block, hblock, hcontent⟩

end Decoder

/-! ### Types -/

theorem ValueType.toByte_of_ofByte? {b : UInt8} {type : ValueType} (h : ofByte? b = some type) :
    type.toByte = b := by
  unfold ofByte? at h
  split at h <;> cases h <;> rfl

theorem ValueType.reads : Reads ValueType.decode ValueType.forms := by
  refine Decoder.reads_ofByte fun b type ↦ ⟨fun h ↦ ?_, ?_⟩
  · unfold ofByte at h
    split at h
    · next hbyte => cases h; exact toByte_of_ofByte? hbyte
    · cases h
  · rintro rfl
    rw [ofByte, ofByte?_toByte]

theorem LanguageType.toByte_of_ofByte? {b : UInt8} {type : LanguageType}
    (h : ofByte? b = some type) : type.toByte = b := by
  unfold ofByte? at h
  split at h
  · cases h; rfl
  · cases h; rfl
  · cases h; rfl
  · obtain ⟨value, hvalue, rfl⟩ := Option.map_eq_some_iff.mp h
    exact ValueType.toByte_of_ofByte? hvalue

theorem LanguageType.reads : Reads LanguageType.decode LanguageType.forms := by
  refine Decoder.reads_ofByte fun b type ↦ ⟨fun h ↦ ?_, ?_⟩
  · unfold ofByte at h
    split at h
    · next hbyte => cases h; exact toByte_of_ofByte? hbyte
    · cases h
  · rintro rfl
    rw [ofByte, ofByte?_toByte]

theorem ExternalKind.toByte_of_ofByte? {b : UInt8} {kind : ExternalKind}
    (h : ofByte? b = some kind) : kind.toByte = b := by
  unfold ofByte? at h
  split at h <;> cases h <;> rfl

theorem ExternalKind.reads : Reads ExternalKind.decode ExternalKind.forms := by
  refine Decoder.reads_ofByte fun b kind ↦ ⟨fun h ↦ ?_, ?_⟩
  · unfold ofByte at h
    split at h
    · next hbyte => cases h; exact toByte_of_ofByte? hbyte
    · cases h
  · rintro rfl
    rw [ofByte, ofByte?_toByte]

/-- A decoder of an answer with a value that may be missing, behind the number that tells whether it
is there. -/
theorem reads_option {α β : Type} {wanted : β → Prop} {p : Decoder α} {L : α → Language UInt8}
    (value : β → Option α) (absent : β) (present : α → β) (habsent : value absent = none)
    (hpresent : ∀ a, value (present a) = some a) (hp : Reads p L) {flag : UInt32} {q : Decoder β}
    (hzero : flag.toNat = 0 → q = pure absent) (hone : flag.toNat = 1 → q = present <$> p)
    (hmany : ∀ n, flag.toNat = n + 2 → ∃ refusal, q = Reader.fail refusal)
    (hwanted : ∀ b, wanted b ↔
      presence (value b) = flag ∧ (b = absent ∨ ∃ a, present a = b)) :
    ReadsOnly wanted q fun b ↦ optionForms L (value b) := by
  have hpresence (b : β) (hb : wanted b) : (presence (value b)).toNat = flag.toNat :=
    congrArg UInt32.toNat ((hwanted b).mp hb).1
  rcases hflag : flag.toNat with _ | _ | n
  · have hread : ReadsOnly (fun b ↦ b = absent) (pure absent) fun _ ↦ 1 := .pure fun _ ↦ Iff.rfl
    rw [hzero hflag]
    refine hread.congr (fun b ↦ ⟨fun hb ↦ ?_, ?_⟩) ?_
    · rcases ((hwanted b).mp hb).2 with h | ⟨a, rfl⟩
      · exact h
      · have hcount := hpresence _ hb
        rw [hpresent, hflag] at hcount
        cases hcount
    · rintro rfl
      refine (hwanted _).mpr ⟨?_, .inl rfl⟩
      rw [habsent, ← UInt32.toNat_inj, hflag]
      rfl
    · rintro b rfl
      rw [habsent]
      rfl
  · rw [hone hflag]
    refine .map hp (fun a ↦ by rw [hpresent]; rfl) fun b ↦ ⟨fun hb ↦ ?_, ?_⟩
    · rcases ((hwanted b).mp hb).2 with rfl | ⟨a, rfl⟩
      · have hcount := hpresence _ hb
        rw [habsent, hflag] at hcount
        cases hcount
      · exact ⟨a, trivial, rfl⟩
    · rintro ⟨a, -, rfl⟩
      refine (hwanted _).mpr ⟨?_, .inr ⟨a, rfl⟩⟩
      rw [hpresent, ← UInt32.toNat_inj, hflag]
      rfl
  · obtain ⟨refusal, hrefusal⟩ := hmany n hflag
    rw [hrefusal]
    refine .fail fun b hb ↦ ?_
    have hcount := hpresence b hb
    rw [hflag] at hcount
    unfold presence at hcount
    split_ifs at hcount <;> simp at hcount

theorem Limits.reads : Reads Limits.decode Limits.forms :=
  .part (fun limits : Limits ↦ presence limits.maximum) Decoder.reads_varUint32 fun flags ↦
    .part Limits.initial Decoder.reads_varUint32 fun initial ↦ by
      refine reads_option Limits.maximum ⟨initial, none⟩ (fun maximum ↦ ⟨initial, some maximum⟩) rfl
        (fun _ ↦ rfl) Decoder.reads_varUint32 (fun h ↦ by rw [h]; rfl) (fun h ↦ ?_)
        (fun n h ↦ ⟨.invalidLimitsFlags (n + 2), by rw [h]; rfl⟩) ?_
      · rw [h]
        exact bind_pure_comp _ _
      · rintro ⟨initial', _ | maximum⟩ <;> simp [eq_comm]

theorem TableType.reads : Reads TableType.decode TableType.forms :=
  .part elementType LanguageType.reads fun elementType ↦
    .lastPart limits Limits.reads fun limits type ↦ by
      cases type
      simp [eq_comm]

theorem GlobalType.reads : Reads GlobalType.decode GlobalType.forms := by
  have hmutability : Reads (Decoder.ofByte mutabilityOfByte)
      fun isMutable ↦ {[if isMutable then 1 else 0]} := by
    refine Decoder.reads_ofByte fun b isMutable ↦ ?_
    unfold mutabilityOfByte
    split <;> cases isMutable <;> simp_all [eq_comm]
  exact .part contentType ValueType.reads fun contentType ↦
    .lastPart isMutable hmutability fun isMutable type ↦ by
      cases type
      simp [eq_comm]

/-- A signature is read, with one result at most. -/
theorem FuncType.reads : Reads FuncType.decode FuncType.forms := by
  have hresult : Reads decodeResult resultForms :=
    .part presence Decoder.reads_varUint32 fun count ↦ by
      refine reads_option id none some rfl (fun _ ↦ rfl) ValueType.reads (fun h ↦ by rw [h]; rfl)
        (fun h ↦ by rw [h]; rfl) (fun n h ↦ ⟨.tooManyReturns (n + 2), by rw [h]; rfl⟩) ?_
      rintro (_ | result) <;> simp [eq_comm]
  exact .part form LanguageType.reads fun form ↦
    .part params (Decoder.reads_counted ValueType.reads) fun params ↦
      .lastPart result hresult fun result type ↦ by
        cases type
        simp [eq_comm, and_assoc]

/-! ### Instructions -/

theorem BranchTable.reads : Reads BranchTable.decode BranchTable.forms :=
  .part targets (Decoder.reads_counted Decoder.reads_varUint32) fun targets ↦
    .lastPart defaultTarget Decoder.reads_varUint32 fun defaultTarget table ↦ by
      cases table
      simp [eq_comm]

theorem IndirectCall.reads : Reads IndirectCall.decode IndirectCall.forms :=
  .part typeIndex Decoder.reads_varUint32 fun typeIndex ↦
    .lastPart reserved Decoder.reads_varUint1 fun reserved call ↦ by
      cases call
      simp [eq_comm]

theorem MemoryAccess.reads : Reads MemoryAccess.decode MemoryAccess.forms :=
  .part flags Decoder.reads_varUint32 fun flags ↦
    .lastPart offset Decoder.reads_varUint32 fun offset access ↦ by
      cases access
      simp [eq_comm]

/-- The immediates of a shape. -/
theorem Immediate.reads (shape : Shape) :
    ReadsOnly (fun immediate ↦ immediate.shape = shape) (decode shape) forms := by
  cases shape with
  | varUint1 =>
    refine .map Decoder.reads_varUint1 (fun _ ↦ rfl) fun immediate ↦ ?_
    cases immediate <;> simp [Immediate.shape]
  | varUint32 =>
    refine .map Decoder.reads_varUint32 (fun _ ↦ rfl) fun immediate ↦ ?_
    cases immediate <;> simp [Immediate.shape]
  | varInt32 =>
    refine .map Decoder.reads_varInt32 (fun _ ↦ rfl) fun immediate ↦ ?_
    cases immediate <;> simp [Immediate.shape]
  | varInt64 =>
    refine .map Decoder.reads_varInt64 (fun _ ↦ rfl) fun immediate ↦ ?_
    cases immediate <;> simp [Immediate.shape]
  | uint32 =>
    refine .map (Decoder.reads_word 4) (fun _ ↦ rfl) fun immediate ↦ ?_
    cases immediate <;> simp [Immediate.shape]
  | uint64 =>
    refine .map (Decoder.reads_word 8) (fun _ ↦ rfl) fun immediate ↦ ?_
    cases immediate <;> simp [Immediate.shape]
  | blockType =>
    refine .map LanguageType.reads (fun _ ↦ rfl) fun immediate ↦ ?_
    cases immediate <;> simp [Immediate.shape]
  | branchTable =>
    refine .map BranchTable.reads (fun _ ↦ rfl) fun immediate ↦ ?_
    cases immediate <;> simp [Immediate.shape]
  | callIndirect =>
    refine .map IndirectCall.reads (fun _ ↦ rfl) fun immediate ↦ ?_
    cases immediate <;> simp [Immediate.shape]
  | memory =>
    refine .map MemoryAccess.reads (fun _ ↦ rfl) fun immediate ↦ ?_
    cases immediate <;> simp [Immediate.shape]

namespace Instruction

theorem bare_of_ofFullName? {name : String} {base : Instruction}
    (h : ofFullName? name = some base) : base.bare = base := by
  rw [bare, ← immediate_of_ofFullName? h]

/-- What is read behind an opcode. -/
theorem reads_immediate {base : Instruction} (hbase : base.bare = base) :
    ReadsOnly (fun instruction ↦ instruction.bare = base)
      (match base.shape? with
      | some shape => base.withImmediate <$> Immediate.decode shape
      | none => pure base) immediateForms := by
  intro input instruction rest
  rw [true_and]
  cases hshape : base.shape? with
  | some shape =>
    simp only [Reader.map_eq_ok_iff]
    constructor
    · rintro ⟨immediate, himmediate, rfl⟩
      obtain ⟨rfl, word, hword, happend⟩ := (Immediate.reads shape).eq_ok_iff.mp himmediate
      exact ⟨hbase, word, ⟨hshape.symm, hword⟩, happend⟩
    · rintro ⟨rfl, word, ⟨hmatch, hword⟩, happend⟩
      rw [show instruction.shape? = some shape from hshape] at hmatch
      obtain ⟨immediate, himmediate, rfl⟩ := Option.map_eq_some_iff.mp hmatch
      rw [himmediate] at hword
      refine ⟨immediate, (Immediate.reads _).eq_ok_iff.mpr ⟨rfl, word, hword, happend⟩, ?_⟩
      cases instruction
      cases himmediate
      rfl
  | none =>
    simp only [Reader.pure_apply]
    constructor
    · rintro ⟨⟩
      have hnone : base.immediate = none := by rw [← hbase]; rfl
      refine ⟨hbase, [], ⟨?_, ?_⟩, rfl⟩
      · rw [hnone, hshape]
        rfl
      · rw [hnone]
        exact Language.nil_mem_one
    · rintro ⟨rfl, word, ⟨hmatch, hword⟩, rfl⟩
      rw [show instruction.shape? = none from hshape] at hmatch
      have hnone := Option.map_eq_none_iff.mp hmatch
      rw [hnone] at hword
      cases (Language.mem_one _).mp hword
      cases instruction
      cases hnone
      rfl

/-- An instruction is read from an opcode byte of it and from its immediate. -/
theorem reads : Reads decode forms := by
  intro input instruction rest
  rw [true_and, true_and, decode, Reader.bind_eq_ok_iff]
  constructor
  · rintro ⟨byte, mid, hbyte, hlater⟩
    obtain ⟨base, mid', hrequire, hbehind⟩ := Reader.bind_eq_ok_iff.mp hlater
    obtain ⟨hname, rfl⟩ := Reader.require_eq_ok_iff.mp hrequire
    obtain ⟨full, -, hbase⟩ := Option.bind_eq_some_iff.mp hname
    obtain ⟨rfl, word, hword, rfl⟩ :=
      (reads_immediate (bare_of_ofFullName? hbase)).eq_ok_iff.mp hbehind
    obtain ⟨opcode, hopcode, rfl⟩ := Decoder.reads_byte.eq_ok_iff.mp hbyte
    cases hopcode
    exact ⟨[byte] ++ word, Language.append_mem_mul ⟨byte, hname, rfl⟩ hword, rfl⟩
  · rintro ⟨_, hform, rfl⟩
    obtain ⟨_, ⟨byte, hname, rfl⟩, word, hword, rfl⟩ := Language.mem_mul.mp hform
    obtain ⟨full, -, hbase⟩ := Option.bind_eq_some_iff.mp hname
    refine ⟨byte, word ++ rest, rfl, Reader.bind_eq_ok_iff.mpr ⟨instruction.bare, word ++ rest,
      Reader.require_eq_ok_iff.mpr ⟨hname, rfl⟩, ?_⟩⟩
    exact (reads_immediate (bare_of_ofFullName? hbase)).eq_ok_iff.mpr ⟨rfl, word, hword, rfl⟩

/-- An instruction takes its opcode byte at least. -/
theorem nil_notMem_forms (instruction : Instruction) : [] ∉ instruction.forms := by
  intro h
  obtain ⟨x, ⟨byte, -, rfl⟩, y, -, happend⟩ := Language.mem_mul.mp h
  cases happend

theorem reads_initializer : Reads decodeInitializer initializerForms := by
  refine ReadsIn.part id reads fun instruction ↦ ?_
  intro input initializer rest
  refine Reader.bind_eq_ok_iff.trans ?_
  simp only [true_and, id_eq, exists_mem_singleton_append_iff]
  constructor
  · rintro ⟨byte, mid, hbyte, hlater⟩
    split_ifs at hlater with hend
    · cases hlater
      obtain ⟨_, rfl, rfl⟩ := Decoder.reads_byte.eq_ok_iff.mp hbyte
      exact ⟨rfl, by rw [hend]⟩
    · cases hlater
  · rintro ⟨rfl, rfl⟩
    exact ⟨endByte, rest, rfl, rfl⟩

/-- Code takes all that there is. -/
theorem reads_code : ReadsToEnd decodeCode (inTurn forms) := .untilEnd reads nil_notMem_forms

end Instruction

end WasmMeter
