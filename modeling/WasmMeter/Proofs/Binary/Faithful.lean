import WasmMeter.Proofs.Binary.Refusals

/-!
# What is written and read again

The opcode of an instruction is found by its type and its name put together, but the shape of its
immediate by the name alone, and a flag is written whatever its value is. So two kinds of
instructions are written that are not read again: those with their type inside the name, where the
shape of the immediate is not the one of the opcode, and those with a flag of more than one bit
(`Module.misread_written`).

There is no third kind. A module that is written is read again if and only if all of its
instructions are `Instruction.Plain` (`Module.decode_eq_ok_iff_plain`): everything else that could
not be read is refused.
-/

set_option autoImplicit false

namespace WasmMeter

open Leb128

/-! ### Instructions -/

/-- The type of an instruction is not written inside its name, and a flag is one bit. -/
structure Instruction.Plain (instruction : Instruction) : Prop where
  unqualified : instruction.type = none → '.' ∉ instruction.name.toList
  flagged : ∀ immediate ∈ instruction.immediate, ∀ flag ∈ immediate.flag?, flag ≤ 1

/-- The instructions that can be read are the plain ones that are not refused. -/
theorem Instruction.canonical_iff {instruction : Instruction} :
    instruction.Canonical ↔ instruction.encodeError? = none ∧ instruction.Plain := by
  rw [encodeError?_eq_none_iff]
  constructor
  · intro h
    obtain ⟨byte, hbase⟩ := exists_opcode_iff.mp h.named
    obtain ⟨name, -, hname⟩ := Option.bind_eq_some_iff.mp hbase
    have hunqualified : instruction.bare.type = none → '.' ∉ instruction.bare.name.toList :=
      not_mem_name_of_ofFullName? hname
    exact ⟨⟨⟨byte, byte?_fullName_of_opcode hbase⟩, h.shaped⟩, hunqualified, h.flagged⟩
  · rintro ⟨⟨⟨byte, hbyte⟩, hshaped⟩, hplain⟩
    have hname : ofFullName? instruction.fullName = some instruction.bare :=
      ofFullName?_fullName hplain.unqualified
    exact ⟨⟨_, Opcode.mem_table_of_byte? hbyte, hname⟩, hshaped, hplain.flagged⟩

/-! ### Payloads -/

/-- The payload of a section can be counted with thirty-two bits. -/
def Section.HasShortPayload (s : Section) : Prop :=
  ∀ payload, s.payload = .ok payload → payload.length < 2 ^ 32

instance (s : Section) : Decidable s.HasShortPayload :=
  decidable_of_iff (s.payload.toOption.all fun payload ↦ payload.length < 2 ^ 32) <| by
    unfold Section.HasShortPayload
    cases s.payload <;> simp [Except.toOption]

/-- A section of canonical instructions has a payload, and has a form if the payload is short. -/
theorem Section.exists_writes_of_canonical {s : Section}
    (h : ∀ instruction ∈ s.instructions, instruction.Canonical) :
    ∃ payload, Writes s.encodeContent payload ∧
      (s.HasShortPayload → ∃ word, word ∈ s.forms) := by
  obtain ⟨payload, hwrites, hform⟩ := writesForm_content h
  refine ⟨payload, hwrites, fun hshort ↦ ?_⟩
  have hlength := hshort payload hwrites.run
  exact exists_mem_forms hlength (hform hlength)

namespace Module

/-! ### Modules -/

/-- The instructions of a module that was read are canonical. -/
theorem canonical_of_decode_eq_ok {bytes : Bytes} {m : Module} (h : Module.decode bytes = .ok m) :
    ∀ instruction ∈ m.instructions, instruction.Canonical := by
  intro instruction hmem
  obtain ⟨s, hs, hinstruction⟩ := List.mem_flatMap.mp hmem
  obtain ⟨content, hcontent⟩ := exists_mem_contentForms_of_decode_eq_ok h s hs
  exact Section.canonical_of_mem_contentForms hcontent instruction hinstruction

/-- A module of canonical instructions is written, and read again if its payloads are short. -/
theorem exists_writes_of_canonical {m : Module}
    (h : ∀ instruction ∈ m.instructions, instruction.Canonical) :
    ∃ bytes, Writes m.encoder bytes ∧
      ((∀ s ∈ m.sections, s.HasShortPayload) → Module.decode bytes = .ok m) := by
  have hsection (s : Section) (hs : s ∈ m.sections) := Section.exists_writes_of_canonical
    fun instruction hinstruction ↦ h instruction (List.mem_flatMap.mpr ⟨s, hs, hinstruction⟩)
  obtain ⟨bytes, hbytes⟩ := exists_writes_encoder fun s hs ↦
    (hsection s hs).imp fun _ hpayload ↦ hpayload.1
  refine ⟨bytes, hbytes, fun hshort ↦ ?_⟩
  obtain ⟨word, hword⟩ : ∃ word, word ∈ m.forms := exists_mem_forms fun s hs ↦ by
    obtain ⟨payload, -, hform⟩ := hsection s hs
    exact hform (hshort s hs)
  obtain ⟨canonical, hwrites, hshortest⟩ := m.writesShortest word hword
  -- Both are what the module is written as.
  have hrun := hwrites.run
  rw [hbytes.run] at hrun
  cases hrun
  exact decode_eq_ok_iff.mpr hshortest.mem

/-- A module that is written with short payloads is read again if and only if its instructions are
plain. -/
theorem decode_eq_ok_iff_plain {m : Module} {sizeHint : Nat} {bytes : Bytes}
    (h : m.encode sizeHint = .ok bytes) (hshort : ∀ s ∈ m.sections, s.HasShortPayload) :
    Module.decode bytes = .ok m ↔ ∀ instruction ∈ m.instructions, instruction.Plain := by
  constructor
  · intro hdecode instruction hmem
    exact (Instruction.canonical_iff.mp (canonical_of_decode_eq_ok hdecode instruction hmem)).2
  · intro hplain
    have hcanonical : ∀ instruction ∈ m.instructions, instruction.Canonical :=
      fun instruction hmem ↦ Instruction.canonical_iff.mpr
        ⟨encodeError?_of_encode_eq_ok h instruction hmem, hplain instruction hmem⟩
    obtain ⟨written, hwrites, hdecode⟩ := exists_writes_of_canonical hcanonical
    have hrun : m.encode sizeHint = .ok written :=
      encode_eq_ok_of_writes hwrites (encode_eq_ok_iff.mp h).1
    rw [h] at hrun
    cases hrun
    exact hdecode hshort

/-- The module with one body, of the code. -/
def ofCode (code : List Instruction) : Module := ⟨.standard, [.code [⟨[], code⟩]]⟩

/-- A module with a negative constant, and with a flag that is set. -/
def indirect : Module :=
  ofCode [⟨"const", some .i32, some (.varInt32 (-65))⟩,
    ⟨"call_indirect", none, some (.callIndirect ⟨128, 1⟩)⟩]

/-- The bytes of `indirect`. -/
def indirectBytes : Bytes :=
  [0x00, 0x61, 0x73, 0x6d, 0x01, 0x00, 0x00, 0x00, 0x0a, 0x0a, 0x01, 0x08, 0x00, 0x41, 0xbf, 0x7f,
    0x11, 0x80, 0x01, 0x01]

theorem decode_eq_ok_iff_plain_indirect :
    indirect.encode 0 = .ok indirectBytes ∧ (∀ s ∈ indirect.sections, s.HasShortPayload) ∧
      (Module.decode indirectBytes = .ok indirect ↔
        ∀ instruction ∈ indirect.instructions, instruction.Plain) := by
  have hencode : indirect.encode 0 = .ok indirectBytes := by decide +kernel
  have hshort : ∀ s ∈ indirect.sections, s.HasShortPayload := by decide +kernel
  exact ⟨hencode, hshort, decode_eq_ok_iff_plain hencode hshort⟩

/-- A flag of two is written and refused when it is read. The name of an opcode with its type inside
is written with no immediate, where the opcode has one as well as where it has none, and what is
read is another instruction. -/
theorem misread_written :
    ((ofCode [⟨"grow_memory", none, some (.varUint1 2)⟩]).encode 0 =
        .ok [0x00, 0x61, 0x73, 0x6d, 0x01, 0x00, 0x00, 0x00, 0x0a, 0x05, 0x01, 0x03, 0x00, 0x40,
          0x02] ∧
      Module.decode [0x00, 0x61, 0x73, 0x6d, 0x01, 0x00, 0x00, 0x00, 0x0a, 0x05, 0x01, 0x03, 0x00,
        0x40, 0x02] = .error (.integerRange 1)) ∧
    ((ofCode [⟨"i32.const", none, none⟩, ⟨"unreachable", none, none⟩]).encode 0 =
        .ok [0x00, 0x61, 0x73, 0x6d, 0x01, 0x00, 0x00, 0x00, 0x0a, 0x05, 0x01, 0x03, 0x00, 0x41,
          0x00] ∧
      Module.decode [0x00, 0x61, 0x73, 0x6d, 0x01, 0x00, 0x00, 0x00, 0x0a, 0x05, 0x01, 0x03, 0x00,
        0x41, 0x00] = .ok (ofCode [⟨"const", some .i32, some (.varInt32 0)⟩])) ∧
    (ofCode [⟨"i32.add", none, none⟩]).encode 0 =
        .ok [0x00, 0x61, 0x73, 0x6d, 0x01, 0x00, 0x00, 0x00, 0x0a, 0x04, 0x01, 0x02, 0x00, 0x6a] ∧
      Module.decode [0x00, 0x61, 0x73, 0x6d, 0x01, 0x00, 0x00, 0x00, 0x0a, 0x04, 0x01, 0x02, 0x00,
        0x6a] = .ok (ofCode [⟨"add", some .i32, none⟩]) := by
  decide +kernel

end Module

end WasmMeter
