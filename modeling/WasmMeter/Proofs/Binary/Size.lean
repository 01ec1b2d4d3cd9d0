import Mathlib.Algebra.BigOperators.Group.List.Basic
import WasmMeter.Binary.Node
import WasmMeter.Proofs.Binary.Concatenation
import WasmMeter.Proofs.Binary.WrittenForms

/-!
# No module is larger than its bytes

The size of a node counts everything of which it may hold many: entries, parameters, groups of
locals, instructions, targets of branches, functions of segments, and the bytes of texts, data and
payloads. Every form of a node has at least as many bytes (`AtLeast`), as no two of these things
share a byte: the parts of a form stand one behind the other (`AtLeast.mul`), and a number in front
of them has bytes of its own (`AtLeast.counted`, `AtLeast.region`).

A module takes eight bytes more for its preamble, so a number of entries that is declared somewhere
in a module cannot make it larger than its bytes (`Module.size_le_of_decode_eq_ok`).
-/

set_option autoImplicit false

namespace WasmMeter

open Leb128

variable {α : Type}

/-! ### Sizes -/

/-- The number of bytes of a text. -/
def textSize (text : String) : Nat := (Utf8.encode text).length

/-- The labels of an immediate that a branch may go to, the default apart. -/
def Immediate.targets : Immediate → List UInt32
  | .branchTable table => table.targets
  | _ => []

/-- One for the instruction, and one for each target of a branch table. -/
def Instruction.size (instruction : Instruction) : Nat :=
  1 + (instruction.immediate.elim [] Immediate.targets).length

/-- One for the entry, and one for each parameter. -/
def FuncType.size (type : FuncType) : Nat := 1 + type.params.length

/-- One for the entry, and the bytes of its two names. -/
def Import.size (entry : Import) : Nat := 1 + (textSize entry.moduleName + textSize entry.field)

/-- One for the entry, and its initializer. -/
def Global.size (entry : Global) : Nat := 1 + entry.init.size

/-- One for the entry, and the bytes of its name. -/
def Export.size (entry : Export) : Nat := 1 + textSize entry.field

/-- One for the entry, its initializer, and one for each function. -/
def ElementSegment.size (segment : ElementSegment) : Nat :=
  1 + (segment.offset.size + segment.functions.length)

/-- One for the entry, one for each group of locals, and the instructions. -/
def FunctionBody.size (body : FunctionBody) : Nat :=
  1 + (body.locals.length + (body.code.map Instruction.size).sum)

/-- One for the entry, its initializer, and the bytes of the data. -/
def DataSegment.size (segment : DataSegment) : Nat :=
  1 + (segment.offset.size + segment.data.length)

/-- The entries of a section, the one function of a start section, or the bytes that a custom
section holds. -/
def Section.contentSize : Section → Nat
  | .custom name payload => textSize name + payload.length
  | .types entries => (entries.map FuncType.size).sum
  | .imports entries => (entries.map Import.size).sum
  | .functions typeIndices => typeIndices.length
  | .tables entries => entries.length
  | .memories entries => entries.length
  | .globals entries => (entries.map Global.size).sum
  | .exports entries => (entries.map Export.size).sum
  | .start _ => 1
  | .elements segments => (segments.map ElementSegment.size).sum
  | .code bodies => (bodies.map FunctionBody.size).sum
  | .data segments => (segments.map DataSegment.size).sum

/-- One for the section, and its content. -/
def Section.size (s : Section) : Nat := 1 + s.contentSize

/-- The sections of a module. -/
def Module.size (m : Module) : Nat := (m.sections.map Section.size).sum

/-! ### Words that are long enough -/

/-- The words of the language have at least as many bytes as the number says. -/
def AtLeast (size : Nat) (L : Language UInt8) : Prop := ∀ word ∈ L, size ≤ word.length

namespace AtLeast

variable {m n : Nat} {L M : Language UInt8}

theorem mono (hL : AtLeast n L) (h : m ≤ n) : AtLeast m L :=
  fun word hword ↦ h.trans (hL word hword)

theorem zero (L : Language UInt8) : AtLeast 0 L := fun word _ ↦ Nat.zero_le word.length

theorem of_nil_notMem (hL : [] ∉ L) : AtLeast 1 L := fun _ hword ↦
  List.length_pos_iff.mpr fun hnil ↦ hL (hnil ▸ hword)

theorem singleton (word : Bytes) : AtLeast word.length {word} := by
  rintro other rfl
  exact Nat.le_refl other.length

theorem unsigned (width : Width) (n : Nat) : AtLeast 1 (unsignedForms width n) :=
  of_nil_notMem (nil_notMem_unsignedForms width n)

/-- Two parts do not share a byte. -/
theorem mul (hL : AtLeast m L) (hM : AtLeast n M) : AtLeast (m + n) (L * M) := by
  intro word hword
  obtain ⟨x, hx, y, hy, rfl⟩ := Language.mem_mul.mp hword
  rw [List.length_append]
  exact Nat.add_le_add (hL x hx) (hM y hy)

theorem mul_left (hL : AtLeast m L) (M : Language UInt8) : AtLeast m (L * M) :=
  hL.mul (.zero M)

/-- Neither do the elements of a list. -/
theorem inTurn {size : α → Nat} {forms : α → Language UInt8}
    (hforms : ∀ a, AtLeast (size a) (forms a)) (list : List α) :
    AtLeast (list.map size).sum (inTurn forms list) := by
  induction list with
  | nil => exact .zero _
  | cons a later ih =>
    rw [inTurn_cons, List.map_cons, List.sum_cons]
    exact (hforms a).mul ih

/-- A list takes a byte more for the number of its elements. -/
theorem counted {size : α → Nat} {forms : α → Language UInt8}
    (hforms : ∀ a, AtLeast (size a) (forms a)) (list : List α) :
    AtLeast (1 + (list.map size).sum) (countedForms forms list) :=
  (unsigned .w32 list.length).mul (inTurn hforms list)

/-- A list of elements none of which is empty. -/
theorem counted_length {forms : α → Language UInt8} (hforms : ∀ a, [] ∉ forms a) (list : List α) :
    AtLeast (1 + list.length) (countedForms forms list) :=
  (unsigned .w32 list.length).mul fun _ ↦ length_le_of_mem_inTurn hforms

theorem sized (content : Bytes) : AtLeast (1 + content.length) (sizedForms content) :=
  (unsigned .w32 content.length).mul (.singleton content)

theorem text (text : String) : AtLeast (1 + textSize text) (textForms text) := sized _

/-- A region takes a byte more for its length. -/
theorem region (hL : AtLeast n L) : AtLeast (1 + n) (regionForms L) := by
  rintro word ⟨content, hcontent, hword⟩
  exact (Nat.add_le_add_left (hL content hcontent) 1).trans (sized content word hword)

end AtLeast

/-! ### Nodes -/

theorem FuncType.atLeast_size (type : FuncType) : AtLeast type.size type.forms :=
  (AtLeast.singleton [type.form.toByte]).mul
    ((AtLeast.counted_length ValueType.nil_notMem_forms type.params).mono
      (Nat.le_add_left _ 1) |>.mul_left _)

theorem Immediate.atLeast_targets (immediate : Immediate) :
    AtLeast immediate.targets.length immediate.forms := by
  cases immediate with
  | branchTable table =>
    exact ((AtLeast.counted_length nil_notMem_indexForms table.targets).mono
      (Nat.le_add_left _ 1)).mul_left _
  | _ => exact .zero _

theorem Instruction.atLeast_size (instruction : Instruction) :
    AtLeast instruction.size instruction.forms := by
  refine AtLeast.mul ?_ ?_
  · rintro _ ⟨byte, -, rfl⟩
    exact Nat.le_refl 1
  · rintro word ⟨-, hword⟩
    cases himmediate : instruction.immediate with
    | none => exact Nat.zero_le word.length
    | some immediate =>
      rw [himmediate] at hword
      exact immediate.atLeast_targets word hword

theorem Instruction.atLeast_size_initializer (instruction : Instruction) :
    AtLeast instruction.size instruction.initializerForms :=
  instruction.atLeast_size.mul_left _

/-- The kind of an import is the byte of its entry. -/
theorem Import.atLeast_size (entry : Import) : AtLeast entry.size entry.forms := by
  have hnames := (AtLeast.text entry.moduleName).mul
    ((AtLeast.text entry.field).mul_left (entry.item.kind.forms * entry.item.forms))
  refine hnames.mono ?_
  rw [size]
  omega

theorem Global.atLeast_size (entry : Global) : AtLeast entry.size entry.forms :=
  (AtLeast.of_nil_notMem entry.type.nil_notMem_forms).mul entry.init.atLeast_size_initializer

theorem Export.atLeast_size (entry : Export) : AtLeast entry.size entry.forms :=
  (AtLeast.text entry.field).mul_left _

theorem ElementSegment.atLeast_size (segment : ElementSegment) :
    AtLeast segment.size segment.forms :=
  (AtLeast.unsigned .w32 segment.table.toNat).mul
    (segment.offset.atLeast_size_initializer.mul
      ((AtLeast.counted_length nil_notMem_indexForms segment.functions).mono
        (Nat.le_add_left _ 1)))

theorem FunctionBody.atLeast_size (body : FunctionBody) : AtLeast body.size body.forms :=
  .region (((AtLeast.counted_length LocalGroup.nil_notMem_forms body.locals).mono
    (Nat.le_add_left _ 1)).mul (.inTurn Instruction.atLeast_size body.code))

theorem DataSegment.atLeast_size (segment : DataSegment) : AtLeast segment.size segment.forms :=
  (AtLeast.unsigned .w32 segment.memory.toNat).mul
    (segment.offset.atLeast_size_initializer.mul
      ((AtLeast.sized segment.data).mono (Nat.le_add_left _ 1)))

/-- The entries of a section stand behind their number. -/
theorem Section.atLeast_contentSize (s : Section) :
    AtLeast s.contentSize s.contentForms := by
  have hlist {α : Type} {size : α → Nat} {forms : α → Language UInt8}
      (hforms : ∀ a, AtLeast (size a) (forms a)) (list : List α) :
      AtLeast (list.map size).sum (countedForms forms list) :=
    (AtLeast.counted hforms list).mono (Nat.le_add_left _ 1)
  have hlength {α : Type} {forms : α → Language UInt8} (hforms : ∀ a, [] ∉ forms a)
      (list : List α) : AtLeast list.length (countedForms forms list) :=
    (AtLeast.counted_length hforms list).mono (Nat.le_add_left _ 1)
  cases s with
  | custom name payload =>
    exact ((AtLeast.text name).mono (Nat.le_add_left _ 1)).mul (.singleton payload)
  | types entries => exact hlist FuncType.atLeast_size entries
  | imports entries => exact hlist Import.atLeast_size entries
  | functions typeIndices => exact hlength nil_notMem_indexForms typeIndices
  | tables entries => exact hlength TableType.nil_notMem_forms entries
  | memories entries => exact hlength Limits.nil_notMem_forms entries
  | globals entries => exact hlist Global.atLeast_size entries
  | exports entries => exact hlist Export.atLeast_size entries
  | start function => exact .unsigned .w32 function.toNat
  | elements segments => exact hlist ElementSegment.atLeast_size segments
  | code bodies => exact hlist FunctionBody.atLeast_size bodies
  | data segments => exact hlist DataSegment.atLeast_size segments

theorem Section.atLeast_size (s : Section) : AtLeast s.size s.forms :=
  (AtLeast.singleton [s.id.toByte]).mul
    ((AtLeast.region s.atLeast_contentSize).mono (Nat.le_add_left _ 1))

/-- The preamble takes eight bytes. -/
theorem Module.atLeast_size (m : Module) : AtLeast (8 + m.size) m.forms := by
  refine AtLeast.mul (fun word hword ↦ ?_) (.inTurn Section.atLeast_size m.sections)
  rw [length_of_mem_preambleForms hword]

/-! ### Every node takes a byte -/

theorem Section.advances_decodeContent (id : SectionId) : (decodeContent id).Advances := by
  have hentries {α : Type} {element : Decoder α} {forms : α → Language UInt8}
      (hreads : Reads element forms) (wrap : List α → Section) :
      (wrap <$> Decoder.counted element).Advances :=
    (Decoder.advances_of_reads (Decoder.reads_counted hreads)
      fun _ ↦ nil_notMem_mul (nil_notMem_unsignedForms .w32 _)).map wrap
  cases id with
  | custom =>
    refine (Decoder.advances_of_reads Decoder.reads_countedText nil_notMem_textForms).bind ?_
    rintro name input s left ⟨⟩
    exact Nat.zero_le input.length
  | start => exact (Decoder.advances_of_reads Decoder.reads_varUint32 nil_notMem_indexForms).map _
  | type => exact hentries FuncType.reads _
  | «import» => exact hentries Import.reads _
  | function => exact hentries Decoder.reads_varUint32 _
  | table => exact hentries TableType.reads _
  | memory => exact hentries Limits.reads _
  | global => exact hentries Global.reads _
  | «export» => exact hentries Export.reads _
  | element => exact hentries ElementSegment.reads _
  | code => exact hentries FunctionBody.reads _
  | data => exact hentries DataSegment.reads _

theorem NodeKind.advances_decode (kind : NodeKind) : kind.decode.Advances := by
  have hsome {α : Type} {p : Decoder α} {forms : α → Language UInt8} (hp : Reads p forms)
      (hforms : ∀ a, [] ∉ forms a) : p.Advances := Decoder.advances_of_reads hp hforms
  cases kind with
  | index => exact hsome Decoder.reads_varUint32 nil_notMem_indexForms
  | valueType => exact hsome ValueType.reads ValueType.nil_notMem_forms
  | languageType => exact hsome LanguageType.reads fun type ↦ nil_notMem_byte type.toByte
  | externalKind => exact hsome ExternalKind.reads fun kind ↦ nil_notMem_byte kind.toByte
  | limits => exact hsome Limits.reads Limits.nil_notMem_forms
  | tableType => exact hsome TableType.reads TableType.nil_notMem_forms
  | globalType => exact hsome GlobalType.reads GlobalType.nil_notMem_forms
  | funcType => exact hsome FuncType.reads FuncType.nil_notMem_forms
  | importEntry => exact hsome Import.reads Import.nil_notMem_forms
  | globalEntry => exact hsome Global.reads Global.nil_notMem_forms
  | exportEntry => exact hsome Export.reads Export.nil_notMem_forms
  | elementSegment => exact hsome ElementSegment.reads ElementSegment.nil_notMem_forms
  | localGroup => exact hsome LocalGroup.reads LocalGroup.nil_notMem_forms
  | functionBody => exact hsome FunctionBody.reads FunctionBody.nil_notMem_forms
  | dataSegment => exact hsome DataSegment.reads DataSegment.nil_notMem_forms
  | instruction => exact hsome Instruction.reads Instruction.nil_notMem_forms
  | content id => exact Section.advances_decodeContent id

/-- More elements are declared than there are bytes for them. -/
theorem Decoder.counted_ne_ok {p : Decoder α} (hp : p.Advances) {input mid left : Bytes}
    {count : UInt32} {list : List α} (hcount : varUint32 input = .ok count mid)
    (hmany : mid.length < count.toNat) : counted p input ≠ .ok list left := by
  intro h
  obtain ⟨count', mid', hcount', hlist⟩ := Reader.bind_eq_ok_iff.mp h
  rw [hcount] at hcount'
  cases hcount'
  have hbytes := hp.length_le_of_times hlist
  omega

/-- A module that is read holds no more things than its bytes behind the preamble, whatever numbers
are declared in it. Every node takes a byte at least, so nodes of which more are declared than there
are bytes are not read. -/
theorem Module.size_le_of_decode_eq_ok :
    (∀ bytes m, Module.decode bytes = .ok m → 8 ≤ bytes.length ∧ m.size ≤ bytes.length - 8) ∧
    (∀ (kind : NodeKind) input node left, kind.decode input = .ok node left →
      left.length < input.length) ∧
    ∀ (kind : NodeKind) input count mid, Decoder.varUint32 input = .ok count mid →
      mid.length < count.toNat →
        ∀ list left, Decoder.counted kind.decode input ≠ .ok list left := by
  refine ⟨fun bytes m h ↦ ?_, NodeKind.advances_decode, fun kind input count mid hcount hmany _ _ ↦
    Decoder.counted_ne_ok kind.advances_decode hcount hmany⟩
  have hsize := m.atLeast_size bytes (decode_eq_ok_iff.mp h)
  omega

namespace Module

/-- The bytes of a module with one body, which has locals and a branch table. -/
def branchingBytes : Bytes :=
  [0x00, 0x61, 0x73, 0x6d, 0x01, 0x00, 0x00, 0x00, 0x0a, 0x0b, 0x01, 0x09, 0x01, 0x02, 0x7f, 0x0e,
    0x02, 0x00, 0x01, 0x00, 0x0b]

/-- The module of `branchingBytes`. -/
def branching : Module :=
  ⟨.standard, [.code [⟨[⟨2, .i32⟩],
    [⟨"br_table", none, some (.branchTable ⟨[0, 1], 0⟩)⟩, ⟨"end", none, none⟩]⟩]]⟩

/-- As many groups of locals as can be declared, of which there is one. -/
def overdeclaredLocals : Bytes := [0xff, 0xff, 0xff, 0xff, 0x0f, 0x02, 0x7f]

theorem size_le_of_decode_eq_ok_branching :
    (Module.decode branchingBytes = .ok branching ∧ branching.size = 7 ∧
      branching.size ≤ branchingBytes.length - 8) ∧
    (NodeKind.localGroup.decode [0x02, 0x7f] = .ok ⟨2, .i32⟩ [] ∧
      ([] : Bytes).length < [0x02, 0x7f].length) ∧
    (Decoder.varUint32 overdeclaredLocals = .ok 0xffffffff [0x02, 0x7f] ∧
      [0x02, 0x7f].length < (0xffffffff : UInt32).toNat ∧
      ∀ list left, Decoder.counted NodeKind.localGroup.decode overdeclaredLocals ≠
        .ok list left) := by
  obtain ⟨hmodule, hnode, hcounted⟩ := size_le_of_decode_eq_ok
  have hdecode : Module.decode branchingBytes = .ok branching := by decide +kernel
  have hgroup : NodeKind.localGroup.decode [0x02, 0x7f] = .ok ⟨2, .i32⟩ [] := rfl
  have hcount : Decoder.varUint32 overdeclaredLocals = .ok 0xffffffff [0x02, 0x7f] := rfl
  have hmany : [0x02, 0x7f].length < (0xffffffff : UInt32).toNat := by decide
  exact ⟨⟨hdecode, rfl, (hmodule _ _ hdecode).2⟩, ⟨hgroup, hnode _ _ _ _ hgroup⟩,
    hcount, hmany, hcounted .localGroup _ _ _ hcount hmany⟩

end Module

end WasmMeter
