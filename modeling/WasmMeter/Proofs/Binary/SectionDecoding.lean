import WasmMeter.Proofs.Binary.Decoding
import WasmMeter.Proofs.Bytes

/-!
# Modules are read by the grammar

The decoders of entries, bodies, sections and modules read the forms of their nodes. A body and a
section stand behind their length and have to use it up, a body because its code goes on to the end
of it, and a section because what it leaves over is an error.

`Section.reads` is the statement about sections. A module is read up to the end of the input, so
`Module.decode_eq_ok_iff` says that a byte string decodes to a module if and only if it is one of
the forms of the module.
-/

set_option autoImplicit false

namespace WasmMeter

/-! ### Entries -/

theorem Imported.reads (kind : ExternalKind) :
    ReadsOnly (fun item ↦ item.kind = kind) (decode kind) forms := by
  cases kind with
  | function =>
    refine .map Decoder.reads_varUint32 (fun _ ↦ rfl) fun item ↦ ?_
    cases item <;> simp [Imported.kind]
  | table =>
    refine .map TableType.reads (fun _ ↦ rfl) fun item ↦ ?_
    cases item <;> simp [Imported.kind]
  | memory =>
    refine .map Limits.reads (fun _ ↦ rfl) fun item ↦ ?_
    cases item <;> simp [Imported.kind]
  | global =>
    refine .map GlobalType.reads (fun _ ↦ rfl) fun item ↦ ?_
    cases item <;> simp [Imported.kind]

theorem Import.reads : Reads Import.decode Import.forms :=
  .part moduleName Decoder.reads_countedText fun moduleName ↦
    .part field Decoder.reads_countedText fun field ↦
      .part (fun entry : Import ↦ entry.item.kind) ExternalKind.reads fun kind ↦ by
        refine .bindLast item (fun entry hentry ↦ hentry.2) (Imported.reads kind) ?_
        rintro item ⟨moduleName', field', item'⟩ rfl
        simp only [Import.mk.injEq]
        constructor
        · rintro ⟨rfl, rfl, rfl⟩
          simp
        · rintro ⟨⟨⟨⟨-, rfl⟩, rfl⟩, -⟩, rfl⟩
          simp

theorem Global.reads : Reads Global.decode Global.forms :=
  .part type GlobalType.reads fun type ↦
    .lastPart init Instruction.reads_initializer fun init entry ↦ by
      cases entry
      simp [eq_comm]

theorem Export.reads : Reads Export.decode Export.forms :=
  .part field Decoder.reads_countedText fun field ↦
    .part kind ExternalKind.reads fun kind ↦
      .lastPart index Decoder.reads_varUint32 fun index entry ↦ by
        cases entry
        simp [eq_comm, and_assoc]

theorem ElementSegment.reads : Reads ElementSegment.decode ElementSegment.forms :=
  .part table Decoder.reads_varUint32 fun table ↦
    .part offset Instruction.reads_initializer fun offset ↦
      .lastPart functions (Decoder.reads_counted Decoder.reads_varUint32) fun functions segment ↦ by
        cases segment
        simp [eq_comm, and_assoc]

theorem LocalGroup.reads : Reads LocalGroup.decode LocalGroup.forms :=
  .part count Decoder.reads_varUint32 fun count ↦
    .lastPart type ValueType.reads fun type group ↦ by
      cases group
      simp [eq_comm]

theorem DataSegment.reads : Reads DataSegment.decode DataSegment.forms :=
  .part memory Decoder.reads_varUint32 fun memory ↦
    .part offset Instruction.reads_initializer fun offset ↦
      .lastPart data Decoder.reads_countedBytes fun data segment ↦ by
        cases segment
        simp [eq_comm, and_assoc]

/-! ### Bodies -/

namespace FunctionBody

/-- What is inside of a body, up to the end of it. -/
theorem reads_content : ReadsToEnd decodeContent contentForms :=
  .part locals (Decoder.reads_counted LocalGroup.reads) fun locals ↦
    .lastPart code Instruction.reads_code fun code body ↦ by
      cases body
      simp [eq_comm]

theorem reads : Reads decode forms := by
  intro input body rest
  rw [true_and, true_and, decode, Reader.bind_eq_ok_iff]
  constructor
  · rintro ⟨size, mid, hsize, hlater⟩
    obtain ⟨⟨_, left⟩, _, hregion, ⟨⟩⟩ := Reader.bind_eq_ok_iff.mp hlater
    obtain ⟨block, hblock, word, hword, happend⟩ :=
      Decoder.region_eq_ok_iff.mp ⟨size, mid, hsize, hregion⟩
    obtain rfl := ((reads_content block body left).mp hblock).1
    have hcontent := ((reads_content.eq_ok_nil_iff rfl).mp hblock).2
    exact ⟨word, ⟨block, hcontent, hword⟩, happend⟩
  · rintro ⟨word, ⟨block, hcontent, hword⟩, happend⟩
    have hblock := (reads_content.eq_ok_nil_iff rfl).mpr ⟨trivial, hcontent⟩
    obtain ⟨size, mid, hsize, hregion⟩ :=
      Decoder.region_eq_ok_iff.mpr ⟨block, hblock, word, hword, happend⟩
    exact ⟨size, mid, hsize, Reader.bind_eq_ok_iff.mpr ⟨_, _, hregion, rfl⟩⟩

end FunctionBody

/-! ### Sections -/

namespace Section

/-- A section that holds a list of entries and nothing else. -/
theorem decode_entries_eq_ok_iff {α : Type} {element : Decoder α} {L : α → Language UInt8}
    (hreads : Reads element L) {wrap : List α → Section} {id : SectionId}
    (hid : ∀ s, s.id = id ↔ ∃ entries, wrap entries = s)
    (hforms : ∀ entries, (wrap entries).contentForms = countedForms L entries) :
    ReadsOnly (fun s ↦ s.id = id) (wrap <$> Decoder.counted element) contentForms :=
  .map (Decoder.reads_counted hreads) hforms fun s ↦ by simpa using hid s

/-- A custom section has a name and takes the rest of its block as it is. -/
theorem decodeContent_custom_eq_ok_nil_iff {block : Bytes} {s : Section} :
    decodeContent .custom block = .ok s [] ↔ s.id = .custom ∧ block ∈ s.contentForms := by
  rw [decodeContent, Reader.bind_eq_ok_iff]
  constructor
  · rintro ⟨name, mid, hname, hlater⟩
    obtain ⟨payload, _, hall, ⟨⟩⟩ := Reader.bind_eq_ok_iff.mp hlater
    cases hall
    obtain ⟨word, hword, rfl⟩ := Decoder.reads_countedText.eq_ok_iff.mp hname
    exact ⟨rfl, Language.append_mem_mul hword rfl⟩
  · rintro ⟨hid, hblock⟩
    cases s with
    | custom name payload =>
      obtain ⟨word, hword, _, rfl, rfl⟩ := Language.mem_mul.mp hblock
      exact ⟨name, _, Decoder.reads_countedText.eq_ok_iff.mpr ⟨word, hword, rfl⟩, rfl⟩
    | _ => cases hid

/-- What uses up a block is one of the contents that a section of the kind may have. -/
theorem decodeContent_eq_ok_nil_iff {id : SectionId} {block : Bytes} {s : Section} :
    decodeContent id block = .ok s [] ↔ s.id = id ∧ block ∈ s.contentForms := by
  have hentries {α : Type} {element : Decoder α} {L : α → Language UInt8}
      (hreads : Reads element L) {wrap : List α → Section} {id : SectionId}
      (hid : ∀ s, s.id = id ↔ ∃ entries, wrap entries = s)
      (hforms : ∀ entries, (wrap entries).contentForms = countedForms L entries) :
      (wrap <$> Decoder.counted element) block = .ok s [] ↔ s.id = id ∧ block ∈ s.contentForms :=
    (decode_entries_eq_ok_iff hreads hid hforms).eq_ok_nil_iff trivial
  cases id with
  | custom => exact decodeContent_custom_eq_ok_nil_iff
  | start =>
    have hstart : ReadsOnly (fun s ↦ s.id = .start) (decodeContent .start) contentForms := by
      refine .map Decoder.reads_varUint32 (fun _ ↦ rfl) fun s ↦ ?_
      cases s <;> simp [Section.id]
    exact hstart.eq_ok_nil_iff trivial
  | type => exact hentries FuncType.reads (fun s ↦ by cases s <;> simp [Section.id]) fun _ ↦ rfl
  | «import» => exact hentries Import.reads (fun s ↦ by cases s <;> simp [Section.id]) fun _ ↦ rfl
  | function =>
    exact hentries Decoder.reads_varUint32 (fun s ↦ by cases s <;> simp [Section.id]) fun _ ↦ rfl
  | table => exact hentries TableType.reads (fun s ↦ by cases s <;> simp [Section.id]) fun _ ↦ rfl
  | memory => exact hentries Limits.reads (fun s ↦ by cases s <;> simp [Section.id]) fun _ ↦ rfl
  | global => exact hentries Global.reads (fun s ↦ by cases s <;> simp [Section.id]) fun _ ↦ rfl
  | «export» => exact hentries Export.reads (fun s ↦ by cases s <;> simp [Section.id]) fun _ ↦ rfl
  | element =>
    exact hentries ElementSegment.reads (fun s ↦ by cases s <;> simp [Section.id]) fun _ ↦ rfl
  | code =>
    exact hentries FunctionBody.reads (fun s ↦ by cases s <;> simp [Section.id]) fun _ ↦ rfl
  | data =>
    exact hentries DataSegment.reads (fun s ↦ by cases s <;> simp [Section.id]) fun _ ↦ rfl

theorem toByte_of_ofByte? {b : UInt8} {id : SectionId} (h : SectionId.ofByte? b = some id) :
    id.toByte = b := by
  have hfound := List.find?_some h
  exact beq_iff_eq.mp hfound

theorem reads : Reads decode forms := by
  intro input s rest
  rw [true_and, true_and, decode, Reader.bind_eq_ok_iff]
  constructor
  · rintro ⟨byte, mid, hbyte, hlater⟩
    obtain ⟨id, _, hrequire, hsized⟩ := Reader.bind_eq_ok_iff.mp hlater
    obtain ⟨hid, rfl⟩ := Reader.require_eq_ok_iff.mp hrequire
    obtain ⟨size, behind, hsize, hcontent⟩ := Reader.bind_eq_ok_iff.mp hsized
    obtain ⟨⟨content, left⟩, _, hregion, hleft⟩ := Reader.bind_eq_ok_iff.mp hcontent
    simp only at hleft
    split_ifs at hleft with hnil
    · cases hleft
      obtain ⟨block, hblock, word, hword, rfl⟩ :=
        Decoder.region_eq_ok_iff.mp ⟨size, behind, hsize, hregion⟩
      rw [hnil] at hblock
      obtain ⟨hkind, hforms⟩ := decodeContent_eq_ok_nil_iff.mp hblock
      obtain ⟨_, rfl, rfl⟩ := Decoder.reads_byte.eq_ok_iff.mp hbyte
      refine ⟨[byte] ++ word, Language.append_mem_mul ?_ ⟨block, hforms, hword⟩, rfl⟩
      rw [hkind, toByte_of_ofByte? hid]
      exact Set.mem_singleton [byte]
    · cases hleft
  · rintro ⟨_, hform, rfl⟩
    obtain ⟨_, rfl, word, ⟨block, hforms, hword⟩, rfl⟩ := Language.mem_mul.mp hform
    have hblock := decodeContent_eq_ok_nil_iff.mpr ⟨rfl, hforms⟩
    obtain ⟨size, behind, hsize, hregion⟩ :=
      Decoder.region_eq_ok_iff.mpr ⟨block, hblock, word, hword, rfl⟩
    refine ⟨s.id.toByte, word ++ rest, rfl, Reader.bind_eq_ok_iff.mpr ⟨s.id, word ++ rest,
      Reader.require_eq_ok_iff.mpr ⟨SectionId.ofByte?_toByte s.id, rfl⟩,
      Reader.bind_eq_ok_iff.mpr ⟨size, behind, hsize, ?_⟩⟩⟩
    exact Reader.bind_eq_ok_iff.mpr ⟨_, _, hregion, rfl⟩

theorem nil_notMem_forms (s : Section) : [] ∉ s.forms := by
  intro h
  obtain ⟨x, rfl, y, -, happend⟩ := Language.mem_mul.mp h
  cases happend

end Section

/-! ### Modules -/

/-- Four bytes are those of a version if and only if their number is the version. -/
theorem Preamble.ofNat_version_eq_iff {content : Bytes} (hlength : content.length = 4)
    {version : UInt32} :
    UInt32.ofNat (Bytes.littleEndian content) = version ↔
      Bytes.ofNat 4 version.toNat = content := by
  have hlt := Bytes.littleEndian_lt content
  rw [← hlength, Bytes.ofNat_eq_iff, hlength, ← UInt32.toNat_inj, UInt32.toNat_ofNat']
  rw [hlength] at hlt
  have hversion := version.toNat_lt
  omega

/-- A preamble is the magic number and the version, of four bytes each. -/
theorem Preamble.reads : Reads Preamble.decode Preamble.forms :=
  .part magic (Decoder.reads_word 4) fun magic ↦ by
    refine .bindLast (fun p : Preamble ↦ Bytes.ofNat 4 p.version.toNat)
      (fun p _ ↦ Bytes.length_ofNat 4 p.version.toNat) (Decoder.reads_bytes 4) ?_
    rintro content ⟨magic', version⟩ hlength
    rw [← ofNat_version_eq_iff hlength]
    simp [eq_comm]

namespace Module

theorem reads : ReadsToEnd decoder forms :=
  .part preamble Preamble.reads fun preamble ↦
    .lastPart sections (.untilEnd Section.reads Section.nil_notMem_forms) fun sections m ↦ by
      cases m
      simp [eq_comm]

/-- A byte string decodes to a module if and only if it is one of the forms of the module. -/
theorem decode_eq_ok_iff {bytes : Bytes} {m : Module} :
    Module.decode bytes = .ok m ↔ bytes ∈ m.forms := by
  rw [Module.decode, show bytes ∈ m.forms ↔ decoder bytes = .ok m [] from
    ((reads.eq_ok_nil_iff rfl).trans (and_iff_right trivial)).symm]
  cases hresult : decoder bytes with
  | ok answer rest =>
    obtain rfl := ((reads bytes answer rest).mp hresult).1
    simp [Reader.value]
  | error e rest => simp [Reader.value]

/-- The content of every section of a module that was decoded has a form. -/
theorem exists_mem_contentForms_of_decode_eq_ok {bytes : Bytes} {m : Module}
    (h : Module.decode bytes = .ok m) : ∀ s ∈ m.sections, ∃ payload, payload ∈ s.contentForms := by
  intro s hs
  obtain ⟨_, -, rest, hrest, -⟩ := Language.mem_mul.mp (decode_eq_ok_iff.mp h)
  obtain ⟨_, hforms⟩ := exists_mem_inTurn_iff.mp ⟨rest, hrest⟩ s hs
  obtain ⟨_, -, _, ⟨payload, hpayload, -⟩, -⟩ := Language.mem_mul.mp hforms
  exact ⟨payload, hpayload⟩

end Module

end WasmMeter
