import WasmMeter.Proofs.Binary.RoundTrip
import WasmMeter.Proofs.FirstSection

/-!
# What encoders refuse

An encoder appends the same bytes to any output, and then it succeeds or fails (`Leaves`, or
`EndsIn` if the bytes do not matter). Of parts that are written in turn the first one that fails
decides (`EndsIn.bind`, `EndsIn.each`).

Nothing but instructions is refused, and of an instruction only two things are looked at: whether an
opcode has its name, and whether its immediate has the shape for this name
(`Instruction.encodeError?`). A module ends in the error of its first instruction that has one,
wherever it stands (`Module.endsIn_encoder`), so it is refused if and only if one of its
instructions is `Instruction.Refused` (`Module.encode_refused_iff`). A hint that is more than an
output can have stops the program before anything is written (`Module.stops_encode_unrefused`).
-/

set_option autoImplicit false

namespace WasmMeter

open Leb128

/-! ### How an encoder ends -/

/-- The encoder puts the bytes behind any output, and then it fails if there is an error. -/
def Leaves (e : Encoder Unit) (row : Bytes) (error? : Option EncodeError) : Prop :=
  ∀ out : Output, e out =
    error?.elim (.ok () (out.append row)) fun error ↦ .error error (out.append row)

namespace Leaves

variable {e f : Encoder Unit} {v w : Bytes} {error : EncodeError}
  {first? later? : Option EncodeError}

theorem of_writes (he : Writes e v) : Leaves e v none := he

theorem fail (error : EncodeError) : Leaves (.fail error) [] (some error) := fun out ↦ by
  rw [Output.append_nil]
  rfl

/-- An encoder leaves one thing only. -/
theorem unique (he : Leaves e v first?) (he' : Leaves e w later?) : v = w ∧ first? = later? := by
  have hsame := (he .empty).symm.trans (he' .empty)
  have hrow (h : Output.empty.append v = Output.empty.append w) : v = w := by
    simpa using congrArg Output.toList h
  cases first? <;> cases later? <;> simp at hsame
  · exact ⟨hrow hsame, rfl⟩
  · exact ⟨hrow hsame.2, congrArg some hsame.1⟩

/-- An encoder writes one thing only. -/
theorem writes_unique (he : Writes e v) (he' : Writes e w) : v = w :=
  ((of_writes he).unique (of_writes he')).1

theorem bind (he : Leaves e v none) (hf : Leaves f w later?) :
    Leaves (do e; f) (v ++ w) later? := by
  intro out
  rw [Writes.bind_apply he, hf, Output.append_append]

/-- Of two parts the second one is not reached if the first one fails. -/
theorem bind_of_error (he : Leaves e v (some error)) (f : Encoder Unit) :
    Leaves (do e; f) v (some error) := by
  intro out
  simp [Bind.bind, EStateM.bind, he out]

/-- The gap of a region whose content fails is never filled. -/
theorem region_of_error (he : Leaves e v (some error)) :
    Leaves (.region e) (List.replicate Encoder.lengthReserve 0 ++ v) (some error) := by
  intro out
  simp only [Encoder.region, he (out.openRegion Encoder.lengthReserve).2]
  rw [Output.append_append]
  rfl

end Leaves

/-- Whatever has been written before, the encoder appends the same bytes, and then it fails if there
is an error. -/
def EndsIn (e : Encoder Unit) (error? : Option EncodeError) : Prop := ∃ row, Leaves e row error?

namespace EndsIn

variable {α : Type} {e f : Encoder Unit} {first? later? : Option EncodeError}

theorem of_writes {word : Bytes} (he : Writes e word) : EndsIn e none := ⟨word, he⟩

theorem of_writesForm {L : Language UInt8} (he : WritesForm e L) : EndsIn e none := by
  obtain ⟨word, hword, -⟩ := he
  exact of_writes hword

theorem unsigned (n : Nat) : EndsIn (.unsigned n) none := of_writes (.bytes _)

theorem fail (error : EncodeError) : EndsIn (.fail error) (some error) := ⟨[], Leaves.fail error⟩

/-- The error of two parts is that of the first one, if it has one. -/
theorem bind (he : EndsIn e first?) (hf : EndsIn f later?) :
    EndsIn (do e; f) (first?.or later?) := by
  obtain ⟨x, hx⟩ := he
  obtain ⟨y, hy⟩ := hf
  cases first? with
  | some error => exact ⟨x, Leaves.bind_of_error hx f⟩
  | none =>
    rw [Option.none_or]
    exact ⟨x ++ y, Leaves.bind hx hy⟩

/-- The elements of a list are written up to the first one that fails. -/
theorem each {element : α → Encoder Unit} {error? : α → Option EncodeError}
    (helement : ∀ a, EndsIn (element a) (error? a)) (list : List α) :
    EndsIn (.each element list) (list.findSome? error?) := by
  induction list with
  | nil => exact of_writes .pure
  | cons a later ih =>
    rw [findSome?_cons_eq_or]
    exact (helement a).bind ih

theorem counted {element : α → Encoder Unit} {error? : α → Option EncodeError}
    (helement : ∀ a, EndsIn (element a) (error? a)) (list : List α) :
    EndsIn (.counted element list) (list.findSome? error?) :=
  (unsigned list.length).bind (each helement list)

/-- A region fails if its content does, and then its length is missing. -/
theorem region (he : EndsIn e first?) : EndsIn (.region e) first? := by
  obtain ⟨word, hword⟩ := he
  cases first? with
  | none => exact of_writes (Writes.region hword)
  | some error => exact ⟨_, Leaves.region_of_error hword⟩

/-- An encoder that succeeds has no error. -/
theorem eq_none_of_run {bytes : Bytes} (he : EndsIn e first?) (h : e.run .empty = .ok bytes) :
    first? = none := by
  obtain ⟨word, hword⟩ := he
  cases first? with
  | none => rfl
  | some error =>
    rw [Encoder.run, hword] at h
    cases h

theorem run_eq_error_iff {error : EncodeError} (he : EndsIn e first?) :
    e.run .empty = .error error ↔ first? = some error := by
  obtain ⟨word, hword⟩ := he
  rw [Encoder.run, hword]
  cases first? with
  | none => simp
  | some first => simp

end EndsIn

/-! ### Instructions -/

/-- An immediate is written whatever its value is, even if it has no form. -/
theorem Immediate.endsIn_encode (immediate : Immediate) : EndsIn immediate.encode none := by
  cases immediate with
  | varUint1 value => exact .unsigned value.toNat
  | varUint32 value => exact .of_writesForm (writesForm_varUint32 value)
  | varInt32 value => exact .of_writes (.bytes _)
  | varInt64 value => exact .of_writes (.bytes _)
  | uint32 bytes => exact .of_writes (.bytes _)
  | uint64 bytes => exact .of_writes (.bytes _)
  | blockType type => exact .of_writes (.byte type.toByte)
  | branchTable table => exact .of_writesForm table.writesForm
  | callIndirect call =>
    exact (EndsIn.of_writesForm (writesForm_varUint32 call.typeIndex)).bind (.unsigned _)
  | memory access => exact .of_writesForm access.writesForm

namespace Instruction

/-- Why an instruction is refused: no opcode has its name, or its immediate does not have the shape
that it has to have. -/
def encodeError? (instruction : Instruction) : Option EncodeError :=
  if (Opcode.byte? instruction.fullName).isNone then some (.unknownOpcode instruction.fullName)
  else if instruction.immediate.map Immediate.shape = instruction.shape? then none
  else some (.immediateMismatch instruction.fullName instruction.shape?)

theorem encodeError?_eq_none_iff {instruction : Instruction} :
    instruction.encodeError? = none ↔
      (∃ byte, Opcode.byte? instruction.fullName = some byte) ∧
        instruction.immediate.map Immediate.shape = instruction.shape? := by
  unfold encodeError?
  cases Opcode.byte? instruction.fullName <;> simp

/-- What is wrong with an instruction: its full name is not in the table of opcodes, or it is, and
the immediate does not have the shape that is looked up for it. An immediate that is missing has no
shape, and is right where none is looked up. -/
inductive Refused (instruction : Instruction) : EncodeError → Prop
  | unknownOpcode (hname : instruction.fullName ∉ Opcode.table.map Prod.snd) :
    Refused instruction (.unknownOpcode instruction.fullName)
  | immediateMismatch (hname : instruction.fullName ∈ Opcode.table.map Prod.snd)
    (hshape : instruction.immediate.map Immediate.shape ≠ instruction.shape?) :
    Refused instruction (.immediateMismatch instruction.fullName instruction.shape?)

theorem encodeError?_eq_some_iff {instruction : Instruction} {error : EncodeError} :
    instruction.encodeError? = some error ↔ instruction.Refused error := by
  unfold encodeError?
  by_cases hname : instruction.fullName ∈ Opcode.table.map Prod.snd
  · rw [if_neg fun hnone ↦ Opcode.isNone_byte?_iff.mp hnone hname]
    by_cases hshape : instruction.immediate.map Immediate.shape = instruction.shape?
    · rw [if_pos hshape]
      refine ⟨nofun, ?_⟩
      rintro (hunknown | ⟨-, hmismatch⟩)
      · exact absurd hname hunknown
      · exact absurd hshape hmismatch
    · rw [if_neg hshape]
      constructor
      · rintro ⟨⟩
        exact .immediateMismatch hname hshape
      · rintro (hunknown | -)
        · exact absurd hname hunknown
        · rfl
  · rw [if_pos (Opcode.isNone_byte?_iff.mpr hname)]
    constructor
    · rintro ⟨⟩
      exact .unknownOpcode hname
    · rintro (- | ⟨hknown, -⟩)
      · rfl
      · exact absurd hknown hname

theorem encodeError?_eq_none_iff_not_refused {instruction : Instruction} :
    instruction.encodeError? = none ↔ ∀ error, ¬instruction.Refused error := by
  simp only [← encodeError?_eq_some_iff, Option.eq_none_iff_forall_ne_some, ne_eq]

theorem endsIn_encodeImmediate (instruction : Instruction) :
    EndsIn instruction.encodeImmediate
      (if instruction.immediate.map Immediate.shape = instruction.shape? then none
        else some (.immediateMismatch instruction.fullName instruction.shape?)) := by
  by_cases hshaped : instruction.immediate.map Immediate.shape = instruction.shape?
  · rw [encodeImmediate, if_pos hshaped, if_pos hshaped]
    cases instruction.immediate with
    | none => exact .of_writes .pure
    | some immediate => exact immediate.endsIn_encode
  · rw [encodeImmediate, if_neg hshaped, if_neg hshaped]
    exact .fail _

theorem endsIn_encode (instruction : Instruction) :
    EndsIn instruction.encode instruction.encodeError? := by
  unfold encode encodeError?
  cases Opcode.byte? instruction.fullName with
  | none => exact .fail _
  | some byte => exact (EndsIn.of_writes (.byte byte)).bind instruction.endsIn_encodeImmediate

theorem endsIn_encodeInitializer (instruction : Instruction) :
    EndsIn instruction.encodeInitializer instruction.encodeError? := by
  rw [← Option.or_none (o := instruction.encodeError?)]
  exact instruction.endsIn_encode.bind (.of_writes (.byte endByte))

end Instruction

/-! ### Entries, sections and modules -/

theorem Global.endsIn_encode (entry : Global) : EndsIn entry.encode entry.init.encodeError? :=
  (EndsIn.of_writesForm entry.type.writesForm).bind entry.init.endsIn_encodeInitializer

theorem ElementSegment.endsIn_encode (segment : ElementSegment) :
    EndsIn segment.encode segment.offset.encodeError? := by
  have hfunctions : EndsIn (.counted .varUint32 segment.functions) none :=
    .of_writesForm (.counted nil_notMem_indexForms fun function _ ↦ writesForm_varUint32 function)
  rw [← Option.or_none (o := segment.offset.encodeError?)]
  exact (EndsIn.of_writesForm (writesForm_varUint32 segment.table)).bind
    (segment.offset.endsIn_encodeInitializer.bind hfunctions)

theorem FunctionBody.endsIn_encode (body : FunctionBody) :
    EndsIn body.encode (body.code.findSome? Instruction.encodeError?) := by
  have hlocals : EndsIn (.counted LocalGroup.encode body.locals) none :=
    .of_writesForm (.counted LocalGroup.nil_notMem_forms fun group _ ↦ group.writesForm)
  exact (hlocals.bind (.each Instruction.endsIn_encode body.code)).region

theorem DataSegment.endsIn_encode (segment : DataSegment) :
    EndsIn segment.encode segment.offset.encodeError? := by
  have hdata : EndsIn (.countedBytes segment.data) none :=
    .of_writesForm (writesForm_countedBytes segment.data)
  rw [← Option.or_none (o := segment.offset.encodeError?)]
  exact (EndsIn.of_writesForm (writesForm_varUint32 segment.memory)).bind
    (segment.offset.endsIn_encodeInitializer.bind hdata)

namespace Section

theorem endsIn_encodeContent (s : Section) :
    EndsIn s.encodeContent (s.instructions.findSome? Instruction.encodeError?) := by
  cases s with
  | globals entries =>
    rw [instructions, List.findSome?_map]
    exact .counted Global.endsIn_encode entries
  | elements segments =>
    rw [instructions, List.findSome?_map]
    exact .counted ElementSegment.endsIn_encode segments
  | code bodies =>
    rw [instructions, findSome?_flatMap]
    exact .counted FunctionBody.endsIn_encode bodies
  | data segments =>
    rw [instructions, List.findSome?_map]
    exact .counted DataSegment.endsIn_encode segments
  | _ => exact .of_writesForm (writesForm_content fun _ hmem ↦ absurd hmem List.not_mem_nil)

theorem endsIn_encode (s : Section) :
    EndsIn s.encode (s.instructions.findSome? Instruction.encodeError?) :=
  (EndsIn.of_writes (.byte s.id.toByte)).bind s.endsIn_encodeContent.region

end Section

namespace Module

/-- A module is refused because of its first instruction that is refused. -/
theorem endsIn_encoder (m : Module) :
    EndsIn m.encoder (m.instructions.findSome? Instruction.encodeError?) := by
  have hpreamble : EndsIn m.preamble.encode none := .of_writes (.bind (.bytes _) (.bytes _))
  rw [instructions, findSome?_flatMap]
  exact hpreamble.bind (.each Section.endsIn_encode m.sections)

/-- No instruction of a module that is written is refused. -/
theorem encodeError?_of_encode_eq_ok {m : Module} {sizeHint : Nat} {bytes : Bytes}
    (h : m.encode sizeHint = .ok bytes) :
    ∀ instruction ∈ m.instructions, instruction.encodeError? = none :=
  List.findSome?_eq_none_iff.mp (m.endsIn_encoder.eq_none_of_run (encode_eq_ok_iff.mp h).2)

/-- The program stops if the hint is more than an output can have. -/
theorem encode_eq_stopped_iff {m : Module} {sizeHint : Nat} {stop : Stop} :
    m.encode sizeHint = .error (.stopped stop) ↔
      Output.maxSize < sizeHint ∧ stop = .capacity := by
  rw [encode_eq]
  by_cases hroom : sizeHint ≤ Output.maxSize
  · rw [if_pos hroom]
    cases m.encoder.run .empty <;> simp [Except.mapError, hroom]
  · simp [hroom, Nat.lt_of_not_le hroom, eq_comm]

theorem encode_eq_refused_iff {m : Module} {sizeHint : Nat} {error : EncodeError} :
    m.encode sizeHint = .error (.refused error) ↔
      sizeHint ≤ Output.maxSize ∧
        m.instructions.findSome? Instruction.encodeError? = some error := by
  rw [← m.endsIn_encoder.run_eq_error_iff, encode_eq]
  by_cases hroom : sizeHint ≤ Output.maxSize
  · rw [if_pos hroom]
    cases m.encoder.run .empty <;> simp [Except.mapError, hroom]
  · simp [hroom]

/-- A module is refused if and only if there can be room for as many bytes as the hint says and one
of its instructions is refused, and then for what is wrong with the first of them, in the order of
sections, of their entries, and of positions in a body. Nothing else keeps it from being written but
a hint that is more than an output can have. -/
theorem encode_refused_iff (m : Module) (sizeHint : Nat) :
    ((∃ failure, m.encode sizeHint = .error failure) ↔
      Output.maxSize < sizeHint ∨
        ∃ instruction ∈ m.instructions, ∃ error, instruction.Refused error) ∧
    (∀ stop, m.encode sizeHint = .error (.stopped stop) ↔
      Output.maxSize < sizeHint ∧ stop = .capacity) ∧
    ∀ error, m.encode sizeHint = .error (.refused error) ↔
      sizeHint ≤ Output.maxSize ∧
        ∃ before instruction behind, m.instructions = before ++ instruction :: behind ∧
          (∀ earlier ∈ before, ∀ reason, ¬earlier.Refused reason) ∧ instruction.Refused error := by
  refine ⟨⟨?_, ?_⟩, fun stop ↦ encode_eq_stopped_iff, fun error ↦ ?_⟩
  · rintro ⟨stop | error, hfailure⟩
    · exact .inl (encode_eq_stopped_iff.mp hfailure).1
    · obtain ⟨instruction, hmem, hrefused⟩ :=
        List.exists_of_findSome?_eq_some (encode_eq_refused_iff.mp hfailure).2
      exact .inr ⟨instruction, hmem, error, Instruction.encodeError?_eq_some_iff.mp hrefused⟩
  · rintro (hlarge | ⟨instruction, hmem, error, hrefused⟩)
    · exact ⟨_, encode_eq_stopped hlarge m⟩
    · by_cases hroom : sizeHint ≤ Output.maxSize
      · have hsome : (m.instructions.findSome? Instruction.encodeError?).isSome :=
          List.findSome?_isSome_iff.mpr ⟨instruction, hmem, Option.isSome_iff_exists.mpr
            ⟨error, Instruction.encodeError?_eq_some_iff.mpr hrefused⟩⟩
        obtain ⟨first, hfirst⟩ := Option.isSome_iff_exists.mp hsome
        exact ⟨.refused first, encode_eq_refused_iff.mpr ⟨hroom, hfirst⟩⟩
      · exact ⟨_, encode_eq_stopped (Nat.lt_of_not_le hroom) m⟩
  · rw [encode_eq_refused_iff, List.findSome?_eq_some_iff]
    simp only [Instruction.encodeError?_eq_some_iff,
      Instruction.encodeError?_eq_none_iff_not_refused]
    refine and_congr_right fun _ ↦ ?_
    exact exists₃_congr fun before instruction behind ↦ and_congr_right fun _ ↦ and_comm

/-- Nothing of a module without instructions is refused, and it is not written with the hint of the
largest word. -/
theorem stops_encode_unrefused :
    (¬∃ instruction ∈ empty.instructions, ∃ error, instruction.Refused error) ∧
      empty.encode 18446744073709551615 = .error (.stopped .capacity) :=
  ⟨fun ⟨_, hmem, _⟩ ↦ List.not_mem_nil hmem, by decide +kernel⟩

end Module

end WasmMeter
