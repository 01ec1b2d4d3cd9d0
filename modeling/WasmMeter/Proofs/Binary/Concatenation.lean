import WasmMeter.Proofs.Binary.SectionDecoding
import WasmMeter.Proofs.Reader

/-!
# Modules with more sections behind them

Reading up to the end of the input is reading one element and then going on with what it leaves. So
what is read is not affected by what stands behind it, and what stands behind it is read as if
nothing stood in front (`Decoder.value_untilEnd_append`).

For modules this means that bytes behind a module are read as its further sections, and that they
are refused for the reason for which they are refused behind the preamble alone
(`Module.decode_append`).
-/

set_option autoImplicit false

namespace WasmMeter

/-! ### Decoders -/

namespace Decoder

variable {α : Type} {p : Decoder α} {L : α → Language UInt8}

theorem advances_of_reads (hp : Reads p L) (hL : ∀ a, [] ∉ L a) : p.Advances := by
  intro input a left h
  obtain ⟨word, hword, rfl⟩ := hp.eq_ok_iff.mp h
  have hpos : 0 < word.length := List.length_pos_iff.mpr fun hnil ↦ hL a (hnil ▸ hword)
  rw [List.length_append]
  omega

/-- One element in front of the others. -/
theorem value_untilEnd_append_word (hp : Reads p L) (hL : ∀ a, [] ∉ L a) {a : α} {word : Bytes}
    (hword : word ∈ L a) (behind : Bytes) :
    Reader.value (Reader.untilEnd p (word ++ behind)) =
      (Reader.value (Reader.untilEnd p behind)).map (a :: ·) := by
  have hne : word ++ behind ≠ [] := by
    intro hnil
    rw [(List.append_eq_nil_iff.mp hnil).1] at hword
    exact hL a hword
  have hfirst : p (word ++ behind) = .ok a behind := hp.eq_ok_iff.mpr ⟨word, hword, rfl⟩
  rw [(advances_of_reads hp hL).untilEnd_eq_bind hne, Reader.value_bind_of_eq_ok hfirst]
  exact Reader.value_bind_pure _ (a :: ·) behind

/-- What stands behind the elements of a list is read as if it stood alone. -/
theorem value_untilEnd_append (hp : Reads p L) (hL : ∀ a, [] ∉ L a) {list : List α} {word : Bytes}
    (hword : word ∈ inTurn L list) (behind : Bytes) :
    Reader.value (Reader.untilEnd p (word ++ behind)) =
      (Reader.value (Reader.untilEnd p behind)).map (list ++ ·) := by
  induction list generalizing word with
  | nil =>
    rw [inTurn_nil, Language.mem_one] at hword
    rw [hword, List.nil_append]
    cases Reader.value (Reader.untilEnd p behind) <;> rfl
  | cons a later ih =>
    rw [inTurn_cons] at hword
    obtain ⟨x, hx, y, hy, rfl⟩ := Language.mem_mul.mp hword
    rw [List.append_assoc, value_untilEnd_append_word hp hL hx, ih hy]
    cases Reader.value (Reader.untilEnd p behind) <;> rfl

end Decoder

/-! ### Modules -/

namespace Module

/-- Behind the eight bytes of a preamble there are sections only. -/
theorem decode_preamble_append {preamble : Preamble} {word : Bytes} (hword : word ∈ preamble.forms)
    (behind : Bytes) :
    Module.decode (word ++ behind) =
      (Reader.value (Reader.untilEnd Section.decode behind)).map (Module.mk preamble) := by
  have hpreamble : Preamble.decode (word ++ behind) = .ok preamble behind :=
    Preamble.reads.eq_ok_iff.mpr ⟨word, hword, rfl⟩
  rw [Module.decode, decoder, Reader.value_bind_of_eq_ok hpreamble]
  exact Reader.value_bind_pure _ (Module.mk preamble) behind

theorem length_of_mem_preambleForms {preamble : Preamble} {word : Bytes}
    (hword : word ∈ preamble.forms) : word.length = 8 := by
  obtain ⟨_, rfl, _, rfl, rfl⟩ := Language.mem_mul.mp hword
  rw [List.length_append, Bytes.length_ofNat, Vector.length_toList]

/-- What stands behind a module is read as what stands behind its first eight bytes alone. If there
are sections, then they are the last sections of the module; if not, then the reason is the same. -/
theorem decode_append {bytes : Bytes} {m : Module} (h : Module.decode bytes = .ok m) :
    8 ≤ bytes.length ∧ ∀ behind : Bytes,
      Module.decode (bytes ++ behind) =
        (Module.decode (bytes.take 8 ++ behind)).map fun later ↦
          { m with sections := m.sections ++ later.sections } := by
  obtain ⟨front, hfront, sections, hsections, rfl⟩ := Language.mem_mul.mp (decode_eq_ok_iff.mp h)
  have hlength := length_of_mem_preambleForms hfront
  refine ⟨?_, fun behind ↦ ?_⟩
  · rw [List.length_append, hlength]
    exact Nat.le_add_right 8 sections.length
  · have htake : (front ++ sections).take 8 = front := List.take_left' hlength
    rw [htake, List.append_assoc, decode_preamble_append hfront, decode_preamble_append hfront,
      Decoder.value_untilEnd_append Section.reads Section.nil_notMem_forms hsections]
    cases Reader.value (Reader.untilEnd Section.decode behind) <;> rfl

/-- The bytes of a module whose two sections go on up to their ends: a custom section, of which the
length is padded, and a body. -/
def openEndedBytes : Bytes :=
  [0x00, 0x61, 0x73, 0x6d, 0x01, 0x00, 0x00, 0x00, 0x00, 0x84, 0x00, 0x01, 0x61, 0x0a, 0x04, 0x0a,
    0x04, 0x01, 0x02, 0x00, 0x0b]

/-- The module of `openEndedBytes`. The payload of its custom section looks like the front of
another section. -/
def openEnded : Module :=
  ⟨.standard, [.custom "a" [0x0a, 0x04], .code [⟨[], [⟨"end", none, none⟩]⟩]]⟩

theorem decode_append_openEnded :
    Module.decode openEndedBytes = .ok openEnded ∧ 8 ≤ openEndedBytes.length ∧
      ∀ behind : Bytes, Module.decode (openEndedBytes ++ behind) =
        (Module.decode (openEndedBytes.take 8 ++ behind)).map fun later ↦
          { openEnded with sections := openEnded.sections ++ later.sections } := by
  have hdecode : Module.decode openEndedBytes = .ok openEnded := by decide +kernel
  exact ⟨hdecode, decode_append hdecode⟩

end Module

end WasmMeter
