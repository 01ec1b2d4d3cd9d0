import WasmMeter.Proofs.Binary.Concatenation
import WasmMeter.Proofs.Binary.Grammar
import WasmMeter.Proofs.Leb128.Reading

/-!
# Modules that are cut short

A decoder notices cuts of a word if every shorter front of the word runs into the end of the input
(`Decoder.NoticesCuts`). This holds of the parts of a preamble and of a section, and of what is made
of such parts in turn (`Decoder.NoticesCuts.bind`). What a section contains plays no part in it, as
its bytes are counted before any of them is read (`Section.noticesCuts`).

So the first bytes of a module are a module themselves if they end behind a section or behind the
preamble, and otherwise they run into the end of the input (`Module.decode_of_isPrefix`).
-/

set_option autoImplicit false

namespace WasmMeter

open Leb128

/-- What stands in front of two parts ends inside the first one, or goes on into the second. -/
theorem isPrefix_append_cases {x y cut : Bytes} (h : cut <+: x ++ y) :
    (cut <+: x ∧ cut ≠ x) ∨ ∃ behind, cut = x ++ behind ∧ behind <+: y := by
  rcases List.prefix_or_prefix_of_prefix h (List.prefix_append x y) with hfront | ⟨behind, rfl⟩
  · by_cases heq : cut = x
    · exact .inr ⟨[], by rw [heq, List.append_nil], List.nil_prefix⟩
    · exact .inl ⟨hfront, heq⟩
  · exact .inr ⟨behind, rfl, (List.prefix_append_right_inj x).mp h⟩

namespace Decoder

variable {α β : Type} {p : Decoder α}

/-! ### Words that are cut short -/

/-- The decoder runs into the end of the input on every shorter front of the word. -/
def NoticesCuts (p : Decoder α) (word : Bytes) : Prop :=
  ∀ cut, cut <+: word → cut ≠ word → ∃ left, p cut = .error .unexpectedEnd left

namespace NoticesCuts

/-- What is read behind the word does not matter. -/
theorem bind_left {word : Bytes} (hp : NoticesCuts p word) (f : α → Decoder β) :
    NoticesCuts (p >>= f) word := by
  intro cut hcut hne
  obtain ⟨left, hleft⟩ := hp cut hcut hne
  exact ⟨left, by rw [Reader.bind_apply, hleft]⟩

/-- A word of two parts is cut in the first one or in the second. -/
theorem bind {f : α → Decoder β} {a : α} {x y : Bytes} (hp : NoticesCuts p x)
    (hread : ∀ behind, p (x ++ behind) = .ok a behind) (hf : NoticesCuts (f a) y) :
    NoticesCuts (p >>= f) (x ++ y) := by
  intro cut hcut hne
  rcases isPrefix_append_cases hcut with ⟨hfront, hshort⟩ | ⟨behind, rfl, hbehind⟩
  · exact hp.bind_left f cut hfront hshort
  · obtain ⟨left, hleft⟩ := hf behind hbehind fun heq ↦ hne (by rw [heq])
    exact ⟨left, by rw [Reader.bind_apply, hread]; exact hleft⟩

end NoticesCuts

/-! ### Bytes and numbers -/

theorem length_lt_of_isPrefix {cut word : Bytes} (hcut : cut <+: word) (hne : cut ≠ word) :
    cut.length < word.length :=
  lt_of_le_of_ne hcut.length_le fun hlength ↦ hne (hcut.eq_of_length hlength)

theorem noticesCuts_byte (b : UInt8) : NoticesCuts byte [b] := by
  intro cut hcut hne
  obtain rfl := List.length_eq_zero_iff.mp (Nat.lt_one_iff.mp (length_lt_of_isPrefix hcut hne))
  exact ⟨[], rfl⟩

theorem noticesCuts_bytes (content : Bytes) : NoticesCuts (bytes content.length) content :=
  fun cut hcut hne ↦ ⟨cut,
    Reader.exactly_of_length_lt DecodeError.unexpectedEnd (length_lt_of_isPrefix hcut hne)⟩

theorem noticesCuts_word {count : Nat} (w : Vector UInt8 count) :
    NoticesCuts (word count) w.toList := by
  have hbytes := noticesCuts_bytes w.toList
  rw [Vector.length_toList] at hbytes
  exact hbytes.bind_left _

theorem noticesCuts_varUint32 {n : Nat} {size : Bytes} (hsize : size ∈ unsignedForms .w32 n) :
    NoticesCuts varUint32 size := by
  intro cut hcut hne
  have hread : Leb128.unsigned .w32 (size ++ []) = .ok n [] :=
    unsigned_eq_ok_iff.mpr ⟨size, hsize, rfl⟩
  have hcutShort : Leb128.unsigned .w32 cut = .error .unexpectedEnd [] :=
    scan_of_isPrefix hread hcut hne
  refine ⟨[], ?_⟩
  rw [varUint32, Reader.map_apply, unsigned, Reader.mapError, hcutShort]
  rfl

/-- A region is refused for what is missing before any of its content is read. -/
theorem noticesCuts_region (content : Decoder α) (block : Bytes) :
    NoticesCuts (region block.length content) block :=
  (noticesCuts_bytes block).bind_left _

/-! ### Words in turn -/

/-- What stands in front of words in turn either ends behind one of them, and is read as the words
up to there, or runs into the end of the input. -/
theorem value_untilEnd_of_isPrefix {L : α → Language UInt8} (hp : Reads p L) (hL : ∀ a, [] ∉ L a)
    (hcuts : ∀ a, ∀ word ∈ L a, NoticesCuts p word) {list : List α} {words : List Bytes}
    (h : List.Forall₂ (fun a word ↦ word ∈ L a) list words) {cut : Bytes}
    (hcut : cut <+: words.flatten) :
    (∃ count, cut = (words.take count).flatten ∧
      Reader.value (Reader.untilEnd p cut) = .ok (list.take count)) ∨
    ((∀ count, cut ≠ (words.take count).flatten) ∧
      Reader.value (Reader.untilEnd p cut) = .error .unexpectedEnd) := by
  induction h generalizing cut with
  | nil =>
    obtain rfl : cut = [] := List.prefix_nil.mp hcut
    exact .inl ⟨0, rfl, rfl⟩
  | @cons a word later words hword hlater ih =>
    have hne : word ≠ [] := fun hnil ↦ hL a (hnil ▸ hword)
    rw [List.flatten_cons] at hcut
    rcases isPrefix_append_cases hcut with ⟨hfront, hshort⟩ | ⟨behind, rfl, hbehind⟩
    · by_cases hnil : cut = []
      · subst hnil
        exact .inl ⟨0, rfl, rfl⟩
      · refine .inr ⟨fun count heq ↦ ?_, ?_⟩
        · cases count with
          | zero => exact hnil heq
          | succ count =>
            rw [List.take_succ_cons, List.flatten_cons] at heq
            have hwhole : word <+: cut := heq ▸ List.prefix_append word _
            exact hshort (hfront.eq_of_length_le hwhole.length_le)
        · obtain ⟨left, hleft⟩ := hcuts a word hword cut hfront hshort
          rw [(advances_of_reads hp hL).untilEnd_eq_bind hnil, Reader.bind_apply, hleft]
          rfl
    · rw [value_untilEnd_append_word hp hL hword]
      rcases ih hbehind with ⟨count, rfl, hvalue⟩ | ⟨hnone, hvalue⟩
      · exact .inl ⟨count + 1, by rw [List.take_succ_cons, List.flatten_cons], by rw [hvalue]; rfl⟩
      · refine .inr ⟨fun count heq ↦ ?_, by rw [hvalue]; rfl⟩
        cases count with
        | zero => exact hne (List.append_eq_nil_iff.mp heq).1
        | succ count =>
          rw [List.take_succ_cons, List.flatten_cons] at heq
          exact hnone count (List.append_cancel_left heq)

end Decoder

/-! ### Sections and modules -/

/-- A section is cut before its size, inside its size, or inside the bytes that its size counts. -/
theorem Section.noticesCuts {s : Section} {word : Bytes} (hword : s.HasWord word) :
    Decoder.NoticesCuts Section.decode word := by
  obtain ⟨size, payload, rfl, hsize, -⟩ := hword
  have hlength : (UInt32.ofNat payload.length).toNat = payload.length :=
    UInt32.toNat_ofNat_of_lt' hsize.2.2.2
  refine (Decoder.noticesCuts_byte s.id.toByte).bind (y := size ++ payload) (fun _ ↦ rfl) ?_
  rw [SectionId.ofByte?_toByte]
  refine (Decoder.noticesCuts_varUint32 hsize).bind (a := UInt32.ofNat payload.length)
    (fun behind ↦ ?_) ?_
  · exact Decoder.reads_varUint32.eq_ok_iff.mpr ⟨size, by rwa [indexForms, hlength], rfl⟩
  · rw [hlength]
    exact (Decoder.noticesCuts_region _ payload).bind_left _

theorem Preamble.noticesCuts {preamble : Preamble} {word : Bytes} (hword : word ∈ preamble.forms) :
    Decoder.NoticesCuts Preamble.decode word := by
  obtain ⟨_, rfl, _, rfl, rfl⟩ := Language.mem_mul.mp hword
  have hversion := Decoder.noticesCuts_bytes (Bytes.ofNat 4 preamble.version.toNat)
  rw [Bytes.length_ofNat] at hversion
  exact (Decoder.noticesCuts_word preamble.magic).bind (a := preamble.magic)
    (fun behind ↦ (Decoder.reads_word 4).eq_ok_iff.mpr ⟨_, rfl, rfl⟩) (hversion.bind_left _)

namespace Module

/-- The first bytes of a module, but not all of them. If they end behind the preamble or behind a
section, then they are the module of the sections up to there; in every other case they run into the
end of the input. -/
theorem decode_of_isPrefix {bytes : Bytes} {m : Module} (h : Module.decode bytes = .ok m) :
    ∃ (front : Bytes) (words : List Bytes),
      bytes = front ++ words.flatten ∧ front.length = 8 ∧
      List.Forall₂ Section.HasWord m.sections words ∧
      ∀ cut, cut <+: bytes → cut ≠ bytes →
        (∃ count < words.length, cut = front ++ (words.take count).flatten ∧
          Module.decode cut = .ok { m with sections := m.sections.take count }) ∨
        ((∀ count, cut ≠ front ++ (words.take count).flatten) ∧
          Module.decode cut = .error .unexpectedEnd) := by
  obtain ⟨front, hfront, rest, hrest, rfl⟩ := Language.mem_mul.mp (decode_eq_ok_iff.mp h)
  obtain ⟨words, rfl, hwords⟩ := mem_inTurn_iff.mp hrest
  have hsections : List.Forall₂ Section.HasWord m.sections words :=
    hwords.imp fun _ _ ↦ Section.mem_forms_iff.mp
  refine ⟨front, words, rfl, length_of_mem_preambleForms hfront, hsections,
    fun cut hcut hne ↦ ?_⟩
  rcases isPrefix_append_cases hcut with ⟨hstart, hshort⟩ | ⟨behind, rfl, hbehind⟩
  · refine .inr ⟨fun count heq ↦ ?_, ?_⟩
    · have hwhole : front <+: cut := heq ▸ List.prefix_append front _
      exact hshort (hstart.eq_of_length_le hwhole.length_le)
    · obtain ⟨left, hleft⟩ := (Preamble.noticesCuts hfront).bind_left _ cut hstart hshort
      rw [Module.decode, decoder, hleft]
      rfl
  · have hcuts (s : Section) (word : Bytes) (hword : word ∈ s.forms) :
        Decoder.NoticesCuts Section.decode word :=
      Section.noticesCuts (Section.mem_forms_iff.mp hword)
    rw [decode_preamble_append hfront]
    rcases Decoder.value_untilEnd_of_isPrefix Section.reads Section.nil_notMem_forms hcuts hwords
      hbehind with ⟨count, rfl, hvalue⟩ | ⟨hnone, hvalue⟩
    · refine .inl ⟨count, ?_, rfl, by rw [hvalue]; rfl⟩
      by_contra hall
      exact hne (by rw [List.take_of_length_le (Nat.not_lt.mp hall)])
    · exact .inr ⟨fun count heq ↦ hnone count (List.append_cancel_left heq), by rw [hvalue]; rfl⟩

theorem decode_of_isPrefix_openEnded :
    Module.decode openEndedBytes = .ok openEnded ∧
      ∃ (front : Bytes) (words : List Bytes),
        openEndedBytes = front ++ words.flatten ∧ front.length = 8 ∧
        List.Forall₂ Section.HasWord openEnded.sections words ∧
        ∀ cut, cut <+: openEndedBytes → cut ≠ openEndedBytes →
          (∃ count < words.length, cut = front ++ (words.take count).flatten ∧
            Module.decode cut =
              .ok { openEnded with sections := openEnded.sections.take count }) ∨
          ((∀ count, cut ≠ front ++ (words.take count).flatten) ∧
            Module.decode cut = .error .unexpectedEnd) := by
  have hdecode : Module.decode openEndedBytes = .ok openEnded := by decide +kernel
  exact ⟨hdecode, decode_of_isPrefix hdecode⟩

end Module

end WasmMeter
