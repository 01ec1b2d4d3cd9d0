import WasmMeter.Binary.Node
import WasmMeter.Proofs.Reader

/-!
# Decoders do not look ahead

What a decoder reads is decided by the bytes that it takes (`Reader.IgnoresBehind`). It reads the
same value from an input that goes on, and takes as many bytes. If it fails, then it fails there for
the same reason and behind the same byte, unless it ran into the end of the input, of which there
may be more.

This is kept by reading one thing after another (`Reader.IgnoresBehind.bind`), whatever the second
one depends on. A part of the input that stands behind its length may be read up to its end, as its
end does not move (`Reader.IgnoresBehind.inside`). So it holds of all nodes but custom sections
(`NodeKind.ignoresBehind_of_ne`), which are the only ones that take all that there is.
-/

set_option autoImplicit false

namespace WasmMeter

variable {τ ε α β : Type}

/-! ### Readers -/

namespace Reader

/-- The reader takes what it takes from the front, and what it answers does not depend on what
stands behind that. The failure `short` is the one of running into the end of the input. -/
structure IgnoresBehind (short : ε) (p : Reader τ ε α) : Prop where
  rest_isSuffix : ∀ input, rest (p input) <:+ input
  ok_append : ∀ {input left a}, p input = .ok a left →
    ∀ behind, p (input ++ behind) = .ok a (left ++ behind)
  error_append : ∀ {input left e}, p input = .error e left → e ≠ short →
    ∀ behind, p (input ++ behind) = .error e (left ++ behind)

namespace IgnoresBehind

variable {short : ε} {p : Reader τ ε α}

theorem pure (a : α) : IgnoresBehind short (pure a : Reader τ ε α) where
  rest_isSuffix input := List.suffix_refl input
  ok_append := by
    rintro input left b ⟨⟩ behind
    rfl
  error_append := nofun

theorem fail (e : ε) : IgnoresBehind short (fail e : Reader τ ε α) where
  rest_isSuffix input := List.suffix_refl input
  ok_append := nofun
  error_append := by
    rintro input left e' ⟨⟩ - behind
    rfl

theorem next : IgnoresBehind short (next short : Reader τ ε τ) where
  rest_isSuffix input := by
    cases input with
    | nil => exact List.suffix_refl []
    | cons t later => exact List.suffix_cons t later
  ok_append := by
    intro input left t h behind
    obtain rfl := next_eq_ok_iff.mp h
    rfl
  error_append := by
    intro input left e h hne behind
    cases input with
    | nil =>
      cases h
      exact absurd rfl hne
    | cons t later => cases h

/-- Only an input that is too short does not have enough tokens. -/
theorem exactly (count : Nat) :
    IgnoresBehind short (exactly count short : Reader τ ε (List τ)) where
  rest_isSuffix input := by
    cases hresult : Reader.exactly count short input with
    | ok taken left =>
      obtain ⟨-, rfl⟩ := exactly_eq_ok_iff.mp hresult
      exact List.suffix_append taken left
    | error e left =>
      obtain ⟨-, rfl⟩ := eq_of_exactly_eq_error hresult
      exact List.suffix_refl left
  ok_append := by
    intro input left taken h behind
    obtain ⟨rfl, rfl⟩ := exactly_eq_ok_iff.mp h
    rw [List.append_assoc]
    exact exactly_append taken (left ++ behind) short
  error_append := by
    intro input left e h hne
    exact absurd (eq_of_exactly_eq_error h).1 hne

theorem require (e : ε) (found : Option α) :
    IgnoresBehind short (require e found : Reader τ ε α) := by
  cases found with
  | none => exact .fail e
  | some a => exact .pure a

/-- Two readers in turn, of which the second one may depend on what the first one answers. -/
theorem bind {f : α → Reader τ ε β} (hp : IgnoresBehind short p)
    (hf : ∀ a, IgnoresBehind short (f a)) : IgnoresBehind short (p >>= f) where
  rest_isSuffix input := by
    have hfirst := hp.rest_isSuffix input
    rw [bind_apply]
    cases hresult : p input with
    | ok a mid =>
      rw [hresult] at hfirst
      exact ((hf a).rest_isSuffix mid).trans hfirst
    | error e left =>
      rw [hresult] at hfirst
      exact hfirst
  ok_append := by
    intro input left b h behind
    obtain ⟨a, mid, hfirst, hsecond⟩ := bind_eq_ok_iff.mp h
    exact bind_eq_ok_iff.mpr
      ⟨a, mid ++ behind, hp.ok_append hfirst behind, (hf a).ok_append hsecond behind⟩
  error_append := by
    intro input left e h hne behind
    rw [bind_apply] at h ⊢
    cases hresult : p input with
    | ok a mid =>
      rw [hresult] at h
      rw [hp.ok_append hresult behind]
      exact (hf a).error_append h hne behind
    | error e' left' =>
      rw [hresult] at h
      cases h
      rw [hp.error_append hresult hne behind]

theorem map (f : α → β) (hp : IgnoresBehind short p) : IgnoresBehind short (f <$> p) := by
  rw [← bind_pure_comp]
  exact hp.bind fun a ↦ .pure (f a)

/-- Failures may be renamed, the one at the end of the input as well. -/
theorem mapError {ε' : Type} {f : ε → ε'} {short' : ε'} (hshort : f short = short')
    (hp : IgnoresBehind short p) : IgnoresBehind short' (p.mapError f) where
  rest_isSuffix input := by
    have hrest := hp.rest_isSuffix input
    unfold Reader.mapError
    cases hresult : p input <;> rw [hresult] at hrest <;> exact hrest
  ok_append := by
    intro input left a h behind
    unfold Reader.mapError at h ⊢
    cases hresult : p input with
    | ok a' left' =>
      rw [hresult] at h
      cases h
      rw [hp.ok_append hresult behind]
    | error e left' =>
      rw [hresult] at h
      cases h
  error_append := by
    intro input left e' h hne behind
    unfold Reader.mapError at h ⊢
    cases hresult : p input with
    | ok a left' =>
      rw [hresult] at h
      cases h
    | error e left' =>
      rw [hresult] at h
      cases h
      rw [hp.error_append hresult (fun heq ↦ hne (heq ▸ hshort)) behind]

/-- What is read from a region does not depend on anything outside of it. -/
theorem inside (region : List τ) (p : Reader τ ε α) : IgnoresBehind short (inside region p) := by
  unfold Reader.inside
  cases p region with
  | ok a left => exact .pure (a, left)
  | error e left => exact .fail e

theorem times (hp : IgnoresBehind short p) (count : Nat) : IgnoresBehind short (times p count) := by
  induction count with
  | zero => exact .pure []
  | succ count ih => exact hp.bind fun first ↦ ih.bind fun later ↦ .pure (first :: later)

end IgnoresBehind

end Reader

/-! ### Numbers -/

/-- A number ends with the first group that is not followed by another one, or at the first group
for which it has no room. -/
theorem Leb128.ignoresBehind_scan (bits : Nat) (step : (shift value : Nat) → UInt8 → Step α)
    (shift value : Nat) : Reader.IgnoresBehind .unexpectedEnd (scan bits step shift value) where
  rest_isSuffix input := by
    induction input generalizing shift value with
    | nil => exact List.suffix_refl []
    | cons b later ih =>
      rw [scan]
      cases step shift value b with
      | more next => exact (ih (shift + 7) next).trans (List.suffix_cons b later)
      | done answer => exact List.suffix_cons b later
      | outOfRange => exact List.suffix_cons b later
  ok_append := by
    intro input left a h behind
    induction input generalizing shift value with
    | nil => cases h
    | cons b later ih =>
      rw [scan] at h
      rw [List.cons_append, scan]
      cases hstep : step shift value b with
      | more next =>
        rw [hstep] at h
        exact ih (shift + 7) next h
      | done answer =>
        rw [hstep] at h
        cases h
        rfl
      | outOfRange =>
        rw [hstep] at h
        cases h
  error_append := by
    intro input left e h hne behind
    induction input generalizing shift value with
    | nil =>
      cases h
      exact absurd rfl hne
    | cons b later ih =>
      rw [scan] at h
      rw [List.cons_append, scan]
      cases hstep : step shift value b with
      | more next =>
        rw [hstep] at h
        exact ih (shift + 7) next h
      | done answer =>
        rw [hstep] at h
        cases h
      | outOfRange =>
        rw [hstep] at h
        cases h
        rfl

/-! ### Decoders -/

namespace Decoder

/-- What the decoder reads does not depend on what stands behind it. -/
abbrev IgnoresBehind (p : Decoder α) : Prop := Reader.IgnoresBehind .unexpectedEnd p

theorem ignoresBehind_byte : byte.IgnoresBehind := .next

theorem ignoresBehind_bytes (count : Nat) : (bytes count).IgnoresBehind := .exactly count

theorem ignoresBehind_word (count : Nat) : (word count).IgnoresBehind :=
  .bind (ignoresBehind_bytes count) fun content ↦ by
    cases Bytes.toWord? count content with
    | none => exact .fail _
    | some w => exact .pure w

theorem ignoresBehind_unsigned (width : Leb128.Width) : (unsigned width).IgnoresBehind :=
  .mapError rfl (Leb128.ignoresBehind_scan _ _ 0 0)

theorem ignoresBehind_signed (width : Leb128.Width) : (signed width).IgnoresBehind :=
  .mapError rfl (Leb128.ignoresBehind_scan _ _ 0 0)

theorem ignoresBehind_varUint1 : varUint1.IgnoresBehind := .map _ (ignoresBehind_unsigned .w1)

theorem ignoresBehind_varUint32 : varUint32.IgnoresBehind := .map _ (ignoresBehind_unsigned .w32)

/-- The bytes of a text are taken before they are looked at. -/
theorem ignoresBehind_text (count : Nat) : (text count).IgnoresBehind :=
  .bind (ignoresBehind_bytes count) fun content ↦ by
    cases Utf8.decode content with
    | ok string => exact .pure string
    | error defect => exact .fail _

theorem ignoresBehind_countedBytes : countedBytes.IgnoresBehind :=
  .bind ignoresBehind_varUint32 fun count ↦ ignoresBehind_bytes count.toNat

theorem ignoresBehind_countedText : countedText.IgnoresBehind :=
  .bind ignoresBehind_varUint32 fun count ↦ ignoresBehind_text count.toNat

theorem ignoresBehind_counted {p : Decoder α} (hp : p.IgnoresBehind) : (counted p).IgnoresBehind :=
  .bind ignoresBehind_varUint32 fun count ↦ .times hp count.toNat

/-- A region is cut out of the input before it is read, by a decoder of whatever kind. -/
theorem ignoresBehind_region (count : Nat) (content : Decoder α) :
    (region count content).IgnoresBehind :=
  .bind (ignoresBehind_bytes count) fun block ↦ .inside block content

theorem ignoresBehind_ofByte (f : UInt8 → Except DecodeError α) : (ofByte f).IgnoresBehind :=
  .bind ignoresBehind_byte fun b ↦ by
    cases f b with
    | ok a => exact .pure a
    | error e => exact .fail e

end Decoder

open Decoder

/-! ### Types -/

theorem ValueType.ignoresBehind_decode : ValueType.decode.IgnoresBehind := ignoresBehind_ofByte _

theorem LanguageType.ignoresBehind_decode : LanguageType.decode.IgnoresBehind :=
  ignoresBehind_ofByte _

theorem ExternalKind.ignoresBehind_decode : ExternalKind.decode.IgnoresBehind :=
  ignoresBehind_ofByte _

theorem Limits.ignoresBehind_decode : Limits.decode.IgnoresBehind :=
  .bind ignoresBehind_varUint32 fun flags ↦ .bind ignoresBehind_varUint32 fun initial ↦ by
    rcases flags.toNat with _ | _ | flags
    · exact .pure _
    · exact .bind ignoresBehind_varUint32 fun maximum ↦ .pure _
    · exact .fail _

theorem TableType.ignoresBehind_decode : TableType.decode.IgnoresBehind :=
  .bind LanguageType.ignoresBehind_decode fun _ ↦
    .bind Limits.ignoresBehind_decode fun _ ↦ .pure _

theorem GlobalType.ignoresBehind_decode : GlobalType.decode.IgnoresBehind :=
  .bind ValueType.ignoresBehind_decode fun _ ↦ .bind (ignoresBehind_ofByte _) fun _ ↦ .pure _

theorem FuncType.ignoresBehind_decode : FuncType.decode.IgnoresBehind := by
  have hresult : decodeResult.IgnoresBehind :=
    .bind ignoresBehind_varUint32 fun count ↦ by
      rcases count.toNat with _ | _ | count
      · exact .pure none
      · exact .map some ValueType.ignoresBehind_decode
      · exact .fail _
  exact .bind LanguageType.ignoresBehind_decode fun _ ↦
    .bind (ignoresBehind_counted ValueType.ignoresBehind_decode) fun _ ↦
      .bind hresult fun _ ↦ .pure _

/-! ### Instructions -/

theorem Immediate.ignoresBehind_decode (shape : Shape) : (decode shape).IgnoresBehind := by
  cases shape with
  | varUint1 => exact .map _ ignoresBehind_varUint1
  | varUint32 => exact .map _ ignoresBehind_varUint32
  | varInt32 => exact .map _ (.map _ (ignoresBehind_signed .w32))
  | varInt64 => exact .map _ (.map _ (ignoresBehind_signed .w64))
  | uint32 => exact .map _ (ignoresBehind_word 4)
  | uint64 => exact .map _ (ignoresBehind_word 8)
  | blockType => exact .map _ LanguageType.ignoresBehind_decode
  | branchTable =>
    exact .map _ (.bind (ignoresBehind_counted ignoresBehind_varUint32) fun _ ↦
      .bind ignoresBehind_varUint32 fun _ ↦ .pure _)
  | callIndirect =>
    exact .map _ (.bind ignoresBehind_varUint32 fun _ ↦
      .bind ignoresBehind_varUint1 fun _ ↦ .pure _)
  | memory =>
    exact .map _ (.bind ignoresBehind_varUint32 fun _ ↦
      .bind ignoresBehind_varUint32 fun _ ↦ .pure _)

/-- The opcode decides what is read behind it. -/
theorem Instruction.ignoresBehind_decode : Instruction.decode.IgnoresBehind :=
  .bind ignoresBehind_byte fun b ↦ .bind (.require _ _) fun instruction ↦ by
    cases instruction.shape? with
    | none => exact .pure instruction
    | some shape => exact .map _ (Immediate.ignoresBehind_decode shape)

theorem Instruction.ignoresBehind_decodeInitializer :
    Instruction.decodeInitializer.IgnoresBehind :=
  .bind ignoresBehind_decode fun instruction ↦ .bind ignoresBehind_byte fun b ↦ by
    by_cases hend : b = endByte
    · rw [if_pos hend]
      exact .pure instruction
    · rw [if_neg hend]
      exact .fail _

/-! ### Entries of sections -/

theorem Imported.ignoresBehind_decode (kind : ExternalKind) : (decode kind).IgnoresBehind := by
  cases kind with
  | function => exact .map _ ignoresBehind_varUint32
  | table => exact .map _ TableType.ignoresBehind_decode
  | memory => exact .map _ Limits.ignoresBehind_decode
  | global => exact .map _ GlobalType.ignoresBehind_decode

theorem Import.ignoresBehind_decode : Import.decode.IgnoresBehind :=
  .bind ignoresBehind_countedText fun _ ↦ .bind ignoresBehind_countedText fun _ ↦
    .bind ExternalKind.ignoresBehind_decode fun kind ↦
      .bind (Imported.ignoresBehind_decode kind) fun _ ↦ .pure _

theorem Global.ignoresBehind_decode : Global.decode.IgnoresBehind :=
  .bind GlobalType.ignoresBehind_decode fun _ ↦
    .bind Instruction.ignoresBehind_decodeInitializer fun _ ↦ .pure _

theorem Export.ignoresBehind_decode : Export.decode.IgnoresBehind :=
  .bind ignoresBehind_countedText fun _ ↦ .bind ExternalKind.ignoresBehind_decode fun _ ↦
    .bind ignoresBehind_varUint32 fun _ ↦ .pure _

theorem ElementSegment.ignoresBehind_decode : ElementSegment.decode.IgnoresBehind :=
  .bind ignoresBehind_varUint32 fun _ ↦ .bind Instruction.ignoresBehind_decodeInitializer fun _ ↦
    .bind (ignoresBehind_counted ignoresBehind_varUint32) fun _ ↦ .pure _

theorem LocalGroup.ignoresBehind_decode : LocalGroup.decode.IgnoresBehind :=
  .bind ignoresBehind_varUint32 fun _ ↦ .bind ValueType.ignoresBehind_decode fun _ ↦ .pure _

/-- The code of a body goes on up to the end of the body and not up to the end of the input. -/
theorem FunctionBody.ignoresBehind_decode : FunctionBody.decode.IgnoresBehind :=
  .bind ignoresBehind_varUint32 fun size ↦
    .bind (ignoresBehind_region size.toNat decodeContent) fun _ ↦ .pure _

theorem DataSegment.ignoresBehind_decode : DataSegment.decode.IgnoresBehind :=
  .bind ignoresBehind_varUint32 fun _ ↦ .bind Instruction.ignoresBehind_decodeInitializer fun _ ↦
    .bind ignoresBehind_countedBytes fun _ ↦ .pure _

/-! ### Nodes -/

/-- The content of a section that is not custom is counted, or is one number. -/
theorem Section.ignoresBehind_decodeContent {id : SectionId} (hid : id ≠ .custom) :
    (decodeContent id).IgnoresBehind := by
  cases id with
  | custom => exact absurd rfl hid
  | start => exact .map _ ignoresBehind_varUint32
  | type => exact .map _ (ignoresBehind_counted FuncType.ignoresBehind_decode)
  | «import» => exact .map _ (ignoresBehind_counted Import.ignoresBehind_decode)
  | function => exact .map _ (ignoresBehind_counted ignoresBehind_varUint32)
  | table => exact .map _ (ignoresBehind_counted TableType.ignoresBehind_decode)
  | memory => exact .map _ (ignoresBehind_counted Limits.ignoresBehind_decode)
  | global => exact .map _ (ignoresBehind_counted Global.ignoresBehind_decode)
  | «export» => exact .map _ (ignoresBehind_counted Export.ignoresBehind_decode)
  | element => exact .map _ (ignoresBehind_counted ElementSegment.ignoresBehind_decode)
  | code => exact .map _ (ignoresBehind_counted FunctionBody.ignoresBehind_decode)
  | data => exact .map _ (ignoresBehind_counted DataSegment.ignoresBehind_decode)

theorem NodeKind.ignoresBehind_of_ne {kind : NodeKind} (hkind : kind ≠ .content .custom) :
    kind.decode.IgnoresBehind := by
  cases kind with
  | index => exact ignoresBehind_varUint32
  | valueType => exact ValueType.ignoresBehind_decode
  | languageType => exact LanguageType.ignoresBehind_decode
  | externalKind => exact ExternalKind.ignoresBehind_decode
  | limits => exact Limits.ignoresBehind_decode
  | tableType => exact TableType.ignoresBehind_decode
  | globalType => exact GlobalType.ignoresBehind_decode
  | funcType => exact FuncType.ignoresBehind_decode
  | importEntry => exact Import.ignoresBehind_decode
  | globalEntry => exact Global.ignoresBehind_decode
  | exportEntry => exact Export.ignoresBehind_decode
  | elementSegment => exact ElementSegment.ignoresBehind_decode
  | localGroup => exact LocalGroup.ignoresBehind_decode
  | functionBody => exact FunctionBody.ignoresBehind_decode
  | dataSegment => exact DataSegment.ignoresBehind_decode
  | instruction => exact Instruction.ignoresBehind_decode
  | content id => exact Section.ignoresBehind_decodeContent fun hid ↦ hkind (congrArg _ hid)

/-- A node that is not a custom section is read from a byte string in the same way, and refused in
the same place for the same reason, if the byte string goes on, and so is a list of such nodes
behind their number. Only what is refused because it ends too early may be read then. -/
theorem NodeKind.ignoresBehind {kind : NodeKind} (hkind : kind ≠ .content .custom) :
    kind.decode.IgnoresBehind ∧ (counted kind.decode).IgnoresBehind :=
  ⟨ignoresBehind_of_ne hkind, ignoresBehind_counted (ignoresBehind_of_ne hkind)⟩

/-- A body whose size is padded, of an instruction that goes on to the end of the body, and two
bodies of which the second one has a flag of two. In front of other bytes the first one is still
read up to its end, and the list is still refused behind the second one. -/
theorem NodeKind.ignoresBehind_bodies :
    NodeKind.functionBody ≠ .content .custom ∧
    (∀ behind, NodeKind.functionBody.decode ([0x84, 0x00, 0x00, 0x41, 0xbf, 0x7f] ++ behind) =
      .ok ⟨[], [⟨"const", some .i32, some (.varInt32 (-65))⟩]⟩ behind) ∧
    ∀ behind, counted NodeKind.functionBody.decode
        ([0x02, 0x02, 0x00, 0x0b, 0x03, 0x00, 0x40, 0x02, 0x0b] ++ behind) =
      .error (.integerRange 1) (0x0b :: behind) := by
  have hkind : NodeKind.functionBody ≠ .content .custom := nofun
  obtain ⟨hone, hmany⟩ := ignoresBehind hkind
  have hread : NodeKind.functionBody.decode [0x84, 0x00, 0x00, 0x41, 0xbf, 0x7f] =
      .ok ⟨[], [⟨"const", some .i32, some (.varInt32 (-65))⟩]⟩ [] := rfl
  have hrefused : counted NodeKind.functionBody.decode
      [0x02, 0x02, 0x00, 0x0b, 0x03, 0x00, 0x40, 0x02, 0x0b] =
      .error (.integerRange 1) [0x0b] := rfl
  exact ⟨hkind, hone.ok_append hread, hmany.error_append hrefused nofun⟩

end WasmMeter
