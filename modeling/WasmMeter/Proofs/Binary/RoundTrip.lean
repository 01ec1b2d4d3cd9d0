import WasmMeter.Proofs.Binary.WrittenForms

/-!
# Which modules survive encoding

A module is read again from the bytes it is written as if and only if all of its instructions are
canonical (`Module.decodes_again_iff`). Instructions stand in bodies, in the first values of
globals, and in the offsets of element and data segments; nothing else in a module matters. With a
hint that is more than an output can have nothing is written (`Module.stops_encode_canonical`).

One direction follows from the grammar: a module that is read has a form, and then so has each of
its instructions. For the other one the canonical instructions are written as forms, so every
section has a form unless its payload is too long, and the shortest form of the module is what the
encoder writes.
-/

set_option autoImplicit false

namespace WasmMeter

open Leb128

/-! ### Sections -/

namespace Section

/-- The bytes that are written behind the length of a section. -/
def payload (s : Section) : Except EncodeError Bytes := s.encodeContent.run .empty

/-- The entries of a section that has a form have forms. -/
theorem exists_mem_of_mem_countedForms {α : Type} {forms : α → Language UInt8} {list : List α}
    {word : Bytes} (h : word ∈ countedForms forms list) : ∀ a ∈ list, ∃ part, part ∈ forms a := by
  obtain ⟨_, -, rest, hrest, -⟩ := Language.mem_mul.mp h
  exact exists_mem_inTurn_iff.mp ⟨rest, hrest⟩

theorem canonical_of_mem_initializerForms {instruction : Instruction} {word : Bytes}
    (h : word ∈ instruction.initializerForms) : instruction.Canonical := by
  obtain ⟨_, hform, -⟩ := Language.mem_mul.mp h
  exact Instruction.canonical_of_mem_forms hform

/-- The instructions of a section that has a payload are canonical. -/
theorem canonical_of_mem_contentForms {s : Section} {word : Bytes} (h : word ∈ s.contentForms) :
    ∀ instruction ∈ s.instructions, instruction.Canonical := by
  cases s with
  | globals entries =>
    refine List.forall_mem_map.mpr fun entry hentry ↦ ?_
    obtain ⟨_, hforms⟩ := exists_mem_of_mem_countedForms h entry hentry
    obtain ⟨_, -, _, hinit, -⟩ := Language.mem_mul.mp hforms
    exact canonical_of_mem_initializerForms hinit
  | elements segments =>
    refine List.forall_mem_map.mpr fun segment hsegment ↦ ?_
    obtain ⟨_, hforms⟩ := exists_mem_of_mem_countedForms h segment hsegment
    obtain ⟨_, -, _, hlater, -⟩ := Language.mem_mul.mp hforms
    obtain ⟨_, hoffset, -⟩ := Language.mem_mul.mp hlater
    exact canonical_of_mem_initializerForms hoffset
  | code bodies =>
    intro instruction hmem
    obtain ⟨body, hbody, hinstruction⟩ := List.mem_flatMap.mp hmem
    obtain ⟨_, content, hcontent, -⟩ := exists_mem_of_mem_countedForms h body hbody
    obtain ⟨_, -, code, hcode, -⟩ := Language.mem_mul.mp hcontent
    obtain ⟨_, hform⟩ := exists_mem_inTurn_iff.mp ⟨code, hcode⟩ instruction hinstruction
    exact Instruction.canonical_of_mem_forms hform
  | data segments =>
    refine List.forall_mem_map.mpr fun segment hsegment ↦ ?_
    obtain ⟨_, hforms⟩ := exists_mem_of_mem_countedForms h segment hsegment
    obtain ⟨_, -, _, hlater, -⟩ := Language.mem_mul.mp hforms
    obtain ⟨_, hoffset, -⟩ := Language.mem_mul.mp hlater
    exact canonical_of_mem_initializerForms hoffset
  | _ => exact fun _ hmem ↦ absurd hmem List.not_mem_nil

/-- A section has a form if its payload is written as one of its contents and can be counted. -/
theorem exists_mem_forms {s : Section} {payload : Bytes} (hlength : payload.length < 2 ^ 32)
    (hpayload : payload ∈ s.contentForms) : ∃ word, word ∈ s.forms := by
  have hform : IsShortest (unsignedForms .w32 payload.length) (encodeUnsigned payload.length) :=
    isShortest_encodeUnsigned hlength
  have hsized : encodeUnsigned payload.length ++ payload ∈ sizedForms payload :=
    Language.append_mem_mul hform.mem rfl
  exact ⟨_, Language.append_mem_mul (Set.mem_singleton [s.id.toByte]) ⟨payload, hpayload, hsized⟩⟩

end Section

/-! ### Modules -/

namespace Module

/-- The instructions of a module. -/
def instructions (m : Module) : List Instruction := m.sections.flatMap Section.instructions

/-- A module has a form if its sections have. -/
theorem exists_mem_forms {m : Module} (h : ∀ s ∈ m.sections, ∃ word, word ∈ s.forms) :
    ∃ word, word ∈ m.forms := by
  obtain ⟨rest, hrest⟩ := exists_mem_inTurn_iff.mpr h
  exact ⟨_, Language.append_mem_mul (Language.append_mem_mul rfl rfl) hrest⟩

/-- A module that is written although its sections may be too long to be read. -/
theorem exists_writes_encoder {m : Module}
    (h : ∀ s ∈ m.sections, ∃ payload, Writes s.encodeContent payload) :
    ∃ word, Writes m.encoder word := by
  obtain ⟨rest, hrest⟩ : ∃ rest, Writes (.each Section.encode m.sections) rest := by
    refine Writes.exists_each fun s hs ↦ ?_
    obtain ⟨payload, hpayload⟩ := h s hs
    exact ⟨_, (Writes.byte s.id.toByte).bind hpayload.region⟩
  exact ⟨_, Writes.bind (.bind (.bytes _) (.bytes _)) hrest⟩

/-- If the payloads that a module is written with can be counted, then the module is written and
read again if and only if all of its instructions are canonical and there can be room for as many
bytes as the hint says. -/
theorem decodes_again_iff (m : Module) (sizeHint : Nat)
    (hsize : ∀ bytes, m.encode sizeHint = .ok bytes →
      ∀ s ∈ m.sections, ∀ payload, s.payload = .ok payload → payload.length < 2 ^ 32) :
    (∃ bytes, m.encode sizeHint = .ok bytes ∧ Module.decode bytes = .ok m) ↔
      sizeHint ≤ Output.maxSize ∧ ∀ instruction ∈ m.instructions, instruction.Canonical := by
  constructor
  · rintro ⟨bytes, hencode, hdecode⟩
    refine ⟨(encode_eq_ok_iff.mp hencode).1, fun instruction hmem ↦ ?_⟩
    obtain ⟨s, hs, hinstruction⟩ := List.mem_flatMap.mp hmem
    obtain ⟨content, hcontent⟩ := exists_mem_contentForms_of_decode_eq_ok hdecode s hs
    exact Section.canonical_of_mem_contentForms hcontent instruction hinstruction
  · rintro ⟨hroom, hcanonical⟩
    have hcontent (s : Section) (hs : s ∈ m.sections) :
        WritesForm s.encodeContent s.contentForms :=
      Section.writesForm_content fun instruction hinstruction ↦
        hcanonical instruction (List.mem_flatMap.mpr ⟨s, hs, hinstruction⟩)
    obtain ⟨written, hwritten⟩ : ∃ word, Writes m.encoder word :=
      exists_writes_encoder fun s hs ↦ (hcontent s hs).imp fun _ hpayload ↦ hpayload.1
    -- The bound on the payloads holds because the module is written.
    have hforms : ∃ word, word ∈ m.forms := exists_mem_forms fun s hs ↦ by
      obtain ⟨payload, hpayload, hmem⟩ := hcontent s hs
      have hlength :=
        hsize written (encode_eq_ok_of_writes hwritten hroom) s hs payload hpayload.run
      exact Section.exists_mem_forms hlength (hmem hlength)
    obtain ⟨word, hword⟩ := hforms
    obtain ⟨canonical, hwrites, hshortest⟩ := m.writesShortest word hword
    exact ⟨canonical, encode_eq_ok_of_writes hwrites hroom, decode_eq_ok_iff.mpr hshortest.mem⟩

/-- A module with instructions in all four places, two code sections, and a custom section behind
them. -/
def assorted : Module :=
  ⟨⟨#v[1, 2, 3, 4], 0xffffffff⟩,
    [.data [⟨0, ⟨"get_global", none, some (.varUint32 0)⟩, [0xff]⟩],
      .code [⟨[⟨300, .f64⟩], [⟨"br_table", none, some (.branchTable ⟨[1, 0], 128⟩)⟩,
        ⟨"call_indirect", none, some (.callIndirect ⟨0, 1⟩)⟩]⟩],
      .globals [⟨⟨.f32, true⟩, ⟨"const", some .f32, some (.uint32 #v[0, 0, 0x80, 0x3f])⟩⟩],
      .elements [⟨0, ⟨"const", some .i32, some (.varInt32 (-65))⟩, [7]⟩],
      .code [],
      .custom "note" [0x0b]]⟩

theorem decodes_again_assorted :
    (∀ bytes, assorted.encode 0 = .ok bytes →
      ∀ s ∈ assorted.sections, ∀ payload, s.payload = .ok payload → payload.length < 2 ^ 32) ∧
    ((∃ bytes, assorted.encode 0 = .ok bytes ∧ Module.decode bytes = .ok assorted) ↔
      0 ≤ Output.maxSize ∧ ∀ instruction ∈ assorted.instructions, instruction.Canonical) := by
  have hcounted : ∀ s ∈ assorted.sections,
      s.payload.toOption.all (fun payload ↦ payload.length < 2 ^ 32) = true := by decide +kernel
  have hsize : ∀ bytes, assorted.encode 0 = .ok bytes →
      ∀ s ∈ assorted.sections, ∀ payload, s.payload = .ok payload → payload.length < 2 ^ 32 := by
    intro bytes _ s hs payload hpayload
    have hall := hcounted s hs
    rw [hpayload] at hall
    exact of_decide_eq_true hall
  exact ⟨hsize, decodes_again_iff assorted 0 hsize⟩

/-- A module without instructions has none that is not canonical, and is not written with the hint
of the largest word. -/
theorem stops_encode_canonical :
    (∀ instruction ∈ empty.instructions, instruction.Canonical) ∧
      (∀ s ∈ empty.sections, ∀ payload, s.payload = .ok payload → payload.length < 2 ^ 32) ∧
      empty.encode 18446744073709551615 = .error (.stopped .capacity) :=
  ⟨nofun, nofun, by decide +kernel⟩

end Module

end WasmMeter
