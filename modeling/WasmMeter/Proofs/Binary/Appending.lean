import WasmMeter.Binary.Node
import WasmMeter.Proofs.Binary.Refusals

/-!
# Appending

What an output holds already has no influence on the bytes that a node puts behind it, nor on
whether the node is refused. That holds of an encoder that fails as well, and even inside the body
of a function, whose region is addressed from the start of the output.

An encoder that fails does so at an instruction. The relations named `Reaches` tell at which
instructions it may arrive and what it has written by then: everything that stands in front of the
instruction, each closed region behind its length, and five zero bytes for the length of a region
that is still open (`FunctionBody.Reaches`). At the first instruction that is refused it stops, and
the opcode of this instruction is the last byte if there is one (`Instruction.BreaksOff`).

`StopsAt` ties an encoder to such a relation. It is proved of instructions, and it carries over to
parts that are written in turn (`StopsAt.bind`, `StopsAt.each`) and to regions (`StopsAt.region`).
`NodeType.encode_appends` puts them together for nodes of every kind, for lists of nodes, and for
lists of lists.
-/

set_option autoImplicit false

namespace WasmMeter

open Leb128

/-! ### What is appended -/

/-- A result with the bytes of an output in front of what has been written. -/
def Encoder.putBehind (out : Output) :
    EStateM.Result EncodeError Output Unit → EStateM.Result EncodeError Output Unit
  | .ok _ written => .ok () (out.append written.toList)
  | .error error written => .error error (out.append written.toList)

theorem EndsIn.apply_eq_putBehind {e : Encoder Unit} {error? : Option EncodeError}
    (he : EndsIn e error?) (out : Output) : e out = Encoder.putBehind out (e .empty) := by
  obtain ⟨word, hword⟩ := he
  rw [hword, hword]
  cases error? <;> simp [Encoder.putBehind]

namespace Leaves

variable {e f : Encoder Unit} {first? later? : Option EncodeError} {row : Bytes}

theorem bind_none_iff (he : EndsIn e first?) (hf : EndsIn f later?) :
    Writes (do e; f) row ↔ ∃ v w, Writes e v ∧ Writes f w ∧ row = v ++ w := by
  constructor
  · intro hrow
    obtain ⟨v, hv⟩ := he
    obtain ⟨w, hw⟩ := hf
    cases first? with
    | some error =>
      exact absurd ((of_writes hrow).unique (bind_of_error hv f)).2 (Option.some_ne_none error).symm
    | none =>
      obtain ⟨hword, rfl⟩ := (of_writes hrow).unique (bind hv hw)
      exact ⟨v, w, hv, hw, hword⟩
  · rintro ⟨v, w, hv, hw, rfl⟩
    exact hv.bind hw

/-- Two parts fail where the first one does, or where the second one does behind the first one. -/
theorem bind_some_iff {error : EncodeError} (he : EndsIn e first?) (hf : EndsIn f later?) :
    Leaves (do e; f) row (some error) ↔
      Leaves e row (some error) ∨
        ∃ v w, Writes e v ∧ Leaves f w (some error) ∧ row = v ++ w := by
  constructor
  · intro hrow
    obtain ⟨v, hv⟩ := he
    cases first? with
    | some first =>
      obtain ⟨hword, hend⟩ := unique hrow (bind_of_error hv f)
      rw [hword, hend]
      exact .inl hv
    | none =>
      obtain ⟨w, hw⟩ := hf
      obtain ⟨hword, hend⟩ := unique hrow (bind hv hw)
      rw [hend]
      exact .inr ⟨v, w, hv, hw, hword⟩
  · rintro (hrow | ⟨v, w, hv, hw, rfl⟩)
    · exact hrow.bind_of_error f
    · exact bind hv hw

end Leaves

/-! ### Where an encoder stops -/

/-- What is wrong with an instruction, and what has been written of it by then. A name that is not
known has no opcode; the opcode is written before the immediate is looked at. -/
inductive Instruction.BreaksOff (instruction : Instruction) : EncodeError → Bytes → Prop
  | unknownOpcode (hname : Opcode.byte? instruction.fullName = none) :
    BreaksOff instruction (.unknownOpcode instruction.fullName) []
  | immediateMismatch {byte : UInt8} (hname : Opcode.byte? instruction.fullName = some byte)
    (hshape : instruction.immediate.map Immediate.shape ≠ instruction.shape?) :
    BreaksOff instruction (.immediateMismatch instruction.fullName instruction.shape?) [byte]

/-- The encoder fails at the first instruction that it reaches and that is refused, with what it has
written by then behind any output. In `reaches front instruction` the bytes `front` are those that
have been written when the turn of the instruction comes. -/
structure StopsAt (e : Encoder Unit) (reaches : Bytes → Instruction → Prop) : Prop where
  ends : ∃ error?, EndsIn e error?
  leaves_iff : ∀ row error, Leaves e row (some error) ↔
    ∃ front instruction part, reaches front instruction ∧ instruction.BreaksOff error part ∧
      row = front ++ part

/-- The encoder gets to an instruction of the list: those in front of it are written. -/
def EachReaches {α : Type} (element : α → Encoder Unit) (reaches : α → Bytes → Instruction → Prop)
    (list : List α) (front : Bytes) (instruction : Instruction) : Prop :=
  ∃ before a behind earlier inner, list = before ++ a :: behind ∧
    Writes (.each element before) earlier ∧ reaches a inner instruction ∧ front = earlier ++ inner

/-- The number of elements stands in front of them. -/
def CountedReaches {α : Type} (element : α → Encoder Unit)
    (reaches : α → Bytes → Instruction → Prop) (list : List α) (front : Bytes)
    (instruction : Instruction) : Prop :=
  ∃ inner, EachReaches element reaches list inner instruction ∧
    front = encodeUnsigned list.length ++ inner

namespace StopsAt

variable {α : Type} {e f : Encoder Unit} {reaches later : Bytes → Instruction → Prop}

theorem congr (he : StopsAt e reaches)
    (h : ∀ front instruction, later front instruction ↔ reaches front instruction) :
    StopsAt e later := by
  have hsame : later = reaches := by
    funext front instruction
    exact propext (h front instruction)
  rwa [hsame]

theorem apply_eq_error_iff (he : StopsAt e reaches) {out left : Output} {error : EncodeError} :
    e out = .error error left ↔
      ∃ front instruction part, reaches front instruction ∧ instruction.BreaksOff error part ∧
        left = out.append (front ++ part) := by
  constructor
  · intro hleft
    obtain ⟨error?, word, hword⟩ := he.ends
    rw [hword out] at hleft
    cases error? with
    | none => cases hleft
    | some first =>
      cases hleft
      obtain ⟨front, instruction, part, hreaches, hbreaks, rfl⟩ := (he.leaves_iff _ _).mp hword
      exact ⟨front, instruction, part, hreaches, hbreaks, rfl⟩
  · rintro ⟨front, instruction, part, hreaches, hbreaks, rfl⟩
    exact (he.leaves_iff _ _).mpr ⟨front, instruction, part, hreaches, hbreaks, rfl⟩ out

/-- An encoder that succeeds does not stop. -/
theorem of_endsIn_none (he : EndsIn e none) : StopsAt e fun _ _ ↦ False where
  ends := ⟨none, he⟩
  leaves_iff row error := by
    obtain ⟨word, hword⟩ := he
    constructor
    · intro hrow
      exact absurd (hrow.unique hword).2 (Option.some_ne_none error)
    · rintro ⟨_, _, _, hreaches, -⟩
      exact hreaches.elim

theorem bind (he : StopsAt e reaches) (hf : StopsAt f later) :
    StopsAt (do e; f) fun front instruction ↦ reaches front instruction ∨
      ∃ word inner, Writes e word ∧ later inner instruction ∧ front = word ++ inner := by
  obtain ⟨first?, hfirst⟩ := he.ends
  obtain ⟨later?, hlater⟩ := hf.ends
  refine ⟨⟨_, hfirst.bind hlater⟩, fun row error ↦ ?_⟩
  rw [Leaves.bind_some_iff hfirst hlater, he.leaves_iff]
  simp only [hf.leaves_iff]
  constructor
  · rintro (⟨front, instruction, part, hreaches, hbreaks, hrow⟩ |
      ⟨word, _, hword, ⟨inner, instruction, part, hreaches, hbreaks, rfl⟩, hrow⟩)
    · exact ⟨front, instruction, part, .inl hreaches, hbreaks, hrow⟩
    · exact ⟨word ++ inner, instruction, part, .inr ⟨word, inner, hword, hreaches, rfl⟩, hbreaks,
        by rw [hrow, List.append_assoc]⟩
  · rintro ⟨front, instruction, part, hreaches | ⟨word, inner, hword, hreaches, rfl⟩, hbreaks, hrow⟩
    · exact .inl ⟨front, instruction, part, hreaches, hbreaks, hrow⟩
    · exact .inr ⟨word, inner ++ part, hword, ⟨inner, instruction, part, hreaches, hbreaks, rfl⟩,
        by rw [hrow, List.append_assoc]⟩

/-- A first part that does not stop is written in front of the second one. -/
theorem behind {word : Bytes} (he : Writes e word) (hf : StopsAt f later) :
    StopsAt (do e; f) fun front instruction ↦
      ∃ inner, later inner instruction ∧ front = word ++ inner := by
  refine ((of_endsIn_none (.of_writes he)).bind hf).congr fun front instruction ↦ ?_
  rw [false_or]
  constructor
  · rintro ⟨inner, hreaches, hfront⟩
    exact ⟨word, inner, he, hreaches, hfront⟩
  · rintro ⟨_, inner, hword, hreaches, rfl⟩
    rw [Leaves.writes_unique hword he]
    exact ⟨inner, hreaches, rfl⟩

/-- A second part that does not stop changes nothing. -/
theorem before (he : StopsAt e reaches) (hf : EndsIn f none) : StopsAt (do e; f) reaches := by
  refine (he.bind (of_endsIn_none hf)).congr fun front instruction ↦ ?_
  simp

section

variable {element : α → Encoder Unit} {reaches : α → Bytes → Instruction → Prop}

theorem eachReaches_cons_iff (helement : ∀ a, StopsAt (element a) (reaches a)) {a : α}
    {list : List α} {front : Bytes} {instruction : Instruction} :
    EachReaches element reaches (a :: list) front instruction ↔
      reaches a front instruction ∨
        ∃ word inner, Writes (element a) word ∧ EachReaches element reaches list inner instruction ∧
          front = word ++ inner := by
  constructor
  · rintro ⟨_ | ⟨b, before⟩, c, behind, earlier, inner, hlist, hearlier, hreaches, rfl⟩
    · obtain ⟨rfl, rfl⟩ := List.cons.inj hlist
      rw [Leaves.writes_unique hearlier .pure]
      exact .inl hreaches
    · -- What is in front are the bytes of `a` and those of the elements between.
      obtain ⟨rfl, rfl⟩ := List.cons.inj hlist
      choose error? hends using fun b ↦ (helement b).ends
      obtain ⟨word, rest, hword, hrest, rfl⟩ :=
        (Leaves.bind_none_iff (hends a) (.each hends before)).mp hearlier
      have hlater : EachReaches element reaches (before ++ c :: behind) (rest ++ inner)
          instruction :=
        ⟨before, c, behind, rest, inner, rfl, hrest, hreaches, rfl⟩
      exact .inr ⟨word, rest ++ inner, hword, hlater, List.append_assoc word rest inner⟩
  · rintro (hreaches | ⟨word, _, hword, ⟨before, b, behind, earlier, inner, rfl, hearlier,
      hreaches, rfl⟩, rfl⟩)
    · exact ⟨[], a, list, [], front, rfl, .pure, hreaches, rfl⟩
    · exact ⟨a :: before, b, behind, word ++ earlier, inner, rfl, hword.bind hearlier, hreaches,
        (List.append_assoc word earlier inner).symm⟩

theorem each (helement : ∀ a, StopsAt (element a) (reaches a)) (list : List α) :
    StopsAt (.each element list) (EachReaches element reaches list) := by
  induction list with
  | nil =>
    refine (of_endsIn_none (.of_writes .pure)).congr fun front instruction ↦ ?_
    simp [EachReaches]
  | cons a list ih =>
    exact ((helement a).bind ih).congr fun front instruction ↦ eachReaches_cons_iff helement

theorem counted (helement : ∀ a, StopsAt (element a) (reaches a)) (list : List α) :
    StopsAt (.counted element list) (CountedReaches element reaches list) :=
  .behind (.bytes _) (each helement list)

end

/-- The length of a region is missing as long as its content is not complete. -/
theorem region (he : StopsAt e reaches) :
    StopsAt (.region e) fun front instruction ↦
      ∃ inner, reaches inner instruction ∧
        front = List.replicate Encoder.lengthReserve 0 ++ inner := by
  -- If the content ends in an error, the gap is all that the region adds to it.
  obtain ⟨error?, word, hword⟩ := he.ends
  refine ⟨⟨error?, EndsIn.region ⟨word, hword⟩⟩, fun row error ↦ ?_⟩
  constructor
  · intro hrow
    cases error? with
    | none => exact absurd (hrow.unique (.of_writes (.region hword))).2 (Option.some_ne_none error)
    | some first =>
      obtain ⟨rfl, hsame⟩ := hrow.unique (Leaves.region_of_error hword)
      rw [← hsame] at hword
      obtain ⟨inner, instruction, part, hreaches, hbreaks, rfl⟩ := (he.leaves_iff _ _).mp hword
      exact ⟨_, instruction, part, ⟨inner, hreaches, rfl⟩, hbreaks,
        (List.append_assoc _ inner part).symm⟩
  · rintro ⟨_, instruction, part, ⟨inner, hreaches, rfl⟩, hbreaks, rfl⟩
    have hcontent : Leaves e (inner ++ part) (some error) :=
      (he.leaves_iff _ _).mpr ⟨inner, instruction, part, hreaches, hbreaks, rfl⟩
    rw [List.append_assoc]
    exact hcontent.region_of_error

end StopsAt

/-! ### Instructions -/

namespace Instruction

/-- Nothing stands in front of an instruction. -/
def Reaches (self : Instruction) (front : Bytes) (instruction : Instruction) : Prop :=
  instruction = self ∧ front = []

theorem BreaksOff.leaves_encode {instruction : Instruction} {error : EncodeError} {part : Bytes}
    (h : instruction.BreaksOff error part) : Leaves instruction.encode part (some error) := by
  cases h with
  | unknownOpcode hname =>
    rw [encode, hname]
    exact .fail _
  | immediateMismatch hname hshape =>
    rw [encode, hname, encodeImmediate, if_neg hshape]
    exact .bind (.of_writes (.byte _)) (.fail _)

theorem Refused.exists_breaksOff {instruction : Instruction} {error : EncodeError}
    (h : instruction.Refused error) : ∃ part, instruction.BreaksOff error part := by
  cases h with
  | unknownOpcode hname =>
    exact ⟨[], .unknownOpcode (Option.isNone_iff_eq_none.mp (Opcode.isNone_byte?_iff.mpr hname))⟩
  | immediateMismatch hname hshape =>
    have hknown : Opcode.byte? instruction.fullName ≠ none := fun hnone ↦
      Opcode.isNone_byte?_iff.mp (Option.isNone_iff_eq_none.mpr hnone) hname
    obtain ⟨byte, hbyte⟩ := Option.ne_none_iff_exists'.mp hknown
    exact ⟨[byte], .immediateMismatch hbyte hshape⟩

theorem leaves_encode_iff {instruction : Instruction} {row : Bytes} {error : EncodeError} :
    Leaves instruction.encode row (some error) ↔ instruction.BreaksOff error row := by
  refine ⟨fun hrow ↦ ?_, BreaksOff.leaves_encode⟩
  obtain ⟨word, hword⟩ := instruction.endsIn_encode
  obtain ⟨-, hsame⟩ := hrow.unique hword
  obtain ⟨part, hbreaks⟩ := (encodeError?_eq_some_iff.mp hsame.symm).exists_breaksOff
  rwa [(hrow.unique hbreaks.leaves_encode).1]

theorem stopsAt_encode (instruction : Instruction) :
    StopsAt instruction.encode instruction.Reaches where
  ends := ⟨_, instruction.endsIn_encode⟩
  leaves_iff row error := by
    rw [leaves_encode_iff]
    constructor
    · intro hbreaks
      exact ⟨[], instruction, row, ⟨rfl, rfl⟩, hbreaks, rfl⟩
    · rintro ⟨_, _, part, ⟨rfl, rfl⟩, hbreaks, rfl⟩
      exact hbreaks

theorem stopsAt_encodeInitializer (instruction : Instruction) :
    StopsAt instruction.encodeInitializer instruction.Reaches :=
  instruction.stopsAt_encode.before (.of_writes (.byte endByte))

end Instruction

/-! ### Entries and sections -/

def Global.Reaches (entry : Global) (front : Bytes) (instruction : Instruction) : Prop :=
  instruction = entry.init ∧ Writes entry.type.encode front

def ElementSegment.Reaches (segment : ElementSegment) (front : Bytes) (instruction : Instruction) :
    Prop :=
  instruction = segment.offset ∧ front = encodeUnsigned segment.table.toNat

def DataSegment.Reaches (segment : DataSegment) (front : Bytes) (instruction : Instruction) :
    Prop :=
  instruction = segment.offset ∧ front = encodeUnsigned segment.memory.toNat

/-- In front of an instruction of a body stand five zero bytes, the locals, and the instructions
that come before it. -/
def FunctionBody.Reaches (body : FunctionBody) (front : Bytes) (instruction : Instruction) : Prop :=
  ∃ before behind locals earlier, body.code = before ++ instruction :: behind ∧
    Writes (.counted LocalGroup.encode body.locals) locals ∧
    Writes (.each Instruction.encode before) earlier ∧
    front = List.replicate 5 0 ++ (locals ++ earlier)

/-- The sections of the other kinds have no instructions. -/
def Section.Reaches : Section → Bytes → Instruction → Prop
  | .globals entries => CountedReaches Global.encode Global.Reaches entries
  | .elements segments => CountedReaches ElementSegment.encode ElementSegment.Reaches segments
  | .code bodies => CountedReaches FunctionBody.encode FunctionBody.Reaches bodies
  | .data segments => CountedReaches DataSegment.encode DataSegment.Reaches segments
  | _ => fun _ _ ↦ False

theorem Global.stopsAt_encode (entry : Global) : StopsAt entry.encode entry.Reaches := by
  obtain ⟨word, hword, -⟩ := entry.type.writesForm
  refine (StopsAt.behind hword entry.init.stopsAt_encodeInitializer).congr
    fun front instruction ↦ ?_
  constructor
  · rintro ⟨hinstruction, hfront⟩
    exact ⟨[], ⟨hinstruction, rfl⟩, by rw [List.append_nil, Leaves.writes_unique hfront hword]⟩
  · rintro ⟨_, ⟨hinstruction, rfl⟩, rfl⟩
    exact ⟨hinstruction, by rwa [List.append_nil]⟩

/-- An initializer stands behind an index, and what follows it is never refused. -/
theorem StopsAt.indexed (index : UInt32) (init : Instruction) {behind : Encoder Unit}
    (hbehind : EndsIn behind none) :
    StopsAt (do .varUint32 index; init.encodeInitializer; behind) fun front instruction ↦
      instruction = init ∧ front = encodeUnsigned index.toNat := by
  have hindex : Writes (.varUint32 index) (encodeUnsigned index.toNat) := .bytes _
  refine (StopsAt.behind hindex (init.stopsAt_encodeInitializer.before hbehind)).congr
    fun front instruction ↦ ?_
  simp [Instruction.Reaches]

theorem ElementSegment.stopsAt_encode (segment : ElementSegment) :
    StopsAt segment.encode segment.Reaches :=
  .indexed segment.table segment.offset
    (.of_writesForm (.counted nil_notMem_indexForms fun function _ ↦ writesForm_varUint32 function))

theorem DataSegment.stopsAt_encode (segment : DataSegment) :
    StopsAt segment.encode segment.Reaches :=
  .indexed segment.memory segment.offset (.of_writesForm (writesForm_countedBytes segment.data))

theorem FunctionBody.stopsAt_encode (body : FunctionBody) : StopsAt body.encode body.Reaches := by
  have hlocals : WritesForm (.counted LocalGroup.encode body.locals) _ :=
    .counted LocalGroup.nil_notMem_forms fun group _ ↦ group.writesForm
  obtain ⟨locals, hwritten, -⟩ := hlocals
  have hcode : StopsAt (.each Instruction.encode body.code) _ :=
    .each Instruction.stopsAt_encode body.code
  refine (StopsAt.behind hwritten hcode).region.congr fun front instruction ↦ ?_
  constructor
  · rintro ⟨before, behind, word, earlier, hbody, hword, hearlier, rfl⟩
    rw [Leaves.writes_unique hword hwritten]
    exact ⟨_, ⟨earlier, ⟨before, instruction, behind, earlier, [], hbody, hearlier, ⟨rfl, rfl⟩,
      (List.append_nil earlier).symm⟩, rfl⟩, rfl⟩
  · rintro ⟨_, ⟨_, ⟨before, _, behind, earlier, _, hbody, hearlier, ⟨rfl, rfl⟩, rfl⟩, rfl⟩, rfl⟩
    exact ⟨before, behind, locals, earlier, hbody, hwritten, hearlier, by rw [List.append_nil]; rfl⟩

theorem Section.stopsAt_encodeContent (s : Section) : StopsAt s.encodeContent s.Reaches := by
  cases s with
  | globals entries => exact .counted Global.stopsAt_encode entries
  | elements segments => exact .counted ElementSegment.stopsAt_encode segments
  | code bodies => exact .counted FunctionBody.stopsAt_encode bodies
  | data segments => exact .counted DataSegment.stopsAt_encode segments
  | _ =>
    exact .of_endsIn_none
      (.of_writesForm (Section.writesForm_content fun _ hmem ↦ absurd hmem List.not_mem_nil))

/-! ### Nodes -/

namespace NodeKind

/-- The other nodes have no instructions. -/
def Reaches : (kind : NodeKind) → kind.Carrier → Bytes → Instruction → Prop
  | .globalEntry => Global.Reaches
  | .elementSegment => ElementSegment.Reaches
  | .functionBody => FunctionBody.Reaches
  | .dataSegment => DataSegment.Reaches
  | .instruction => Instruction.Reaches
  | .content _ => Section.Reaches
  | _ => fun _ _ _ ↦ False

theorem stopsAt_encode (kind : NodeKind) (node : kind.Carrier) :
    StopsAt (kind.encode node) (kind.Reaches node) := by
  cases kind with
  | index => exact .of_endsIn_none (.of_writesForm (writesForm_varUint32 node))
  | valueType => exact .of_endsIn_none (.of_writes (.byte _))
  | languageType => exact .of_endsIn_none (.of_writes (.byte _))
  | externalKind => exact .of_endsIn_none (.of_writes (.byte _))
  | limits => exact .of_endsIn_none (.of_writesForm (Limits.writesForm node))
  | tableType => exact .of_endsIn_none (.of_writesForm (TableType.writesForm node))
  | globalType => exact .of_endsIn_none (.of_writesForm (GlobalType.writesForm node))
  | funcType => exact .of_endsIn_none (.of_writesForm (FuncType.writesForm node))
  | importEntry => exact .of_endsIn_none (.of_writesForm (Import.writesForm node))
  | globalEntry => exact Global.stopsAt_encode node
  | exportEntry => exact .of_endsIn_none (.of_writesForm (Export.writesForm node))
  | elementSegment => exact ElementSegment.stopsAt_encode node
  | localGroup => exact .of_endsIn_none (.of_writesForm (LocalGroup.writesForm node))
  | functionBody => exact FunctionBody.stopsAt_encode node
  | dataSegment => exact DataSegment.stopsAt_encode node
  | instruction => exact Instruction.stopsAt_encode node
  | content id => exact Section.stopsAt_encodeContent node

end NodeKind

/-- What has a binary form: a node of some kind, and a list of what has one. -/
inductive NodeType
  | node (kind : NodeKind)
  | list (element : NodeType)
  deriving DecidableEq, Repr

namespace NodeType

@[reducible]
def Carrier : NodeType → Type
  | .node kind => kind.Carrier
  | .list element => List element.Carrier

/-- A list is written behind the number of its elements. -/
def encode : (type : NodeType) → type.Carrier → Encoder Unit
  | .node kind => kind.encode
  | .list element => Encoder.counted element.encode

def Reaches : (type : NodeType) → type.Carrier → Bytes → Instruction → Prop
  | .node kind => kind.Reaches
  | .list element => CountedReaches element.encode element.Reaches

theorem stopsAt_encode (type : NodeType) (node : type.Carrier) :
    StopsAt (type.encode node) (type.Reaches node) := by
  induction type with
  | node kind => exact kind.stopsAt_encode node
  | list element ih => exact .counted ih node

end NodeType

/-- Whatever an output holds, it is kept in front, and a node is written, or refused, as it is into
an empty output. A node that is refused leaves what has been written when its first instruction that
is refused is reached, and the opcode of this instruction if it has one. -/
theorem NodeType.encode_appends (type : NodeType) (node : type.Carrier) (out : Output) :
    type.encode node out = Encoder.putBehind out (type.encode node .empty) ∧
    ∀ error left, type.encode node out = .error error left ↔
      ∃ front instruction part, type.Reaches node front instruction ∧
        instruction.BreaksOff error part ∧ left = out.append (front ++ part) := by
  have hstops := type.stopsAt_encode node
  obtain ⟨error?, hends⟩ := hstops.ends
  exact ⟨hends.apply_eq_putBehind out, fun error left ↦ hstops.apply_eq_error_iff⟩

/-- A call lacks its function. The body in front of it is complete; of its own body there are the
open length, the locals, and the opcode of the call. -/
example : (NodeType.node (.content .code)).encode
    (.code [⟨[], []⟩, ⟨[⟨2, .i64⟩], [⟨"call", none, none⟩, ⟨"end", none, none⟩]⟩]) ⟨#[0xff]⟩ =
    .error (.immediateMismatch "call" (some .varUint32))
      ⟨#[0xff, 2, 1, 0, 0, 0, 0, 0, 0, 1, 2, 0x7e, 0x10]⟩ := by
  cbv

end WasmMeter
