import WasmMeter.Proofs.Binary.SectionDecoding

/-!
# The layout of a module

A byte string decodes to a module if and only if it falls into four bytes of magic, four bytes of
version, and one word for each section in turn (`Module.decode_eq_ok_iff_hasLayout`). The word of a
section is the byte of its kind, any form of the length of a payload, and exactly this payload; what
payloads a section may have is said by `Section.contentForms`.

Nothing else is accepted: no byte stands behind the last section, none between two sections, and
none behind the entries of a payload.
-/

set_option autoImplicit false

namespace WasmMeter

open Leb128

/-- A word of a section: the byte of its kind, a form of the length of a payload, and the
payload. -/
def Section.HasWord (s : Section) (word : Bytes) : Prop :=
  ∃ size payload : Bytes, word = s.id.toByte :: (size ++ payload) ∧
    size ∈ unsignedForms .w32 payload.length ∧ payload ∈ s.contentForms

theorem Section.mem_forms_iff {s : Section} {word : Bytes} : word ∈ s.forms ↔ s.HasWord word := by
  constructor
  · intro h
    obtain ⟨_, rfl, _, ⟨payload, hpayload, hsized⟩, rfl⟩ := Language.mem_mul.mp h
    obtain ⟨size, hsize, _, rfl, rfl⟩ := Language.mem_mul.mp hsized
    exact ⟨size, _, rfl, hsize, hpayload⟩
  · rintro ⟨size, payload, rfl, hsize, hpayload⟩
    have hsized : size ++ payload ∈ sizedForms payload := Language.append_mem_mul hsize rfl
    exact Language.append_mem_mul (Set.mem_singleton [s.id.toByte]) ⟨payload, hpayload, hsized⟩

namespace Module

/-- The parts of the bytes of a module. The version stands with its least significant byte first,
and there is one word for each section. -/
structure HasLayout (m : Module) (magic version : Bytes) (words : List Bytes) : Prop where
  magic : m.preamble.magic.toList = magic
  length_version : version.length = 4
  version : Bytes.littleEndian version = m.preamble.version.toNat
  sections : List.Forall₂ Section.HasWord m.sections words

/-- Four bytes hold a version if and only if they are the bytes of the version. -/
theorem littleEndian_eq_version_iff {content : Bytes} {version : UInt32} :
    content.length = 4 ∧ Bytes.littleEndian content = version.toNat ↔
      Bytes.ofNat 4 version.toNat = content := by
  constructor
  · rintro ⟨hlength, hversion⟩
    rw [← Preamble.ofNat_version_eq_iff hlength, hversion, UInt32.ofNat_toNat]
  · rintro rfl
    have hlength := Bytes.length_ofNat 4 version.toNat
    refine ⟨hlength, ?_⟩
    have hversion : UInt32.ofNat (Bytes.littleEndian (Bytes.ofNat 4 version.toNat)) = version :=
      (Preamble.ofNat_version_eq_iff hlength).mpr rfl
    have hlt := Bytes.littleEndian_lt (Bytes.ofNat 4 version.toNat)
    rw [hlength] at hlt
    exact (UInt32.toNat_ofNat_of_lt' hlt).symm.trans (congrArg UInt32.toNat hversion)

/-- A byte string decodes to a module if and only if it is laid out as the module: magic, version,
and sections, each behind its kind and the length of its payload. -/
theorem decode_eq_ok_iff_hasLayout (bytes : Bytes) (m : Module) :
    Module.decode bytes = .ok m ↔
      ∃ magic version words, bytes = magic ++ (version ++ words.flatten) ∧
        m.HasLayout magic version words := by
  have hsections (word : Bytes) : word ∈ inTurn Section.forms m.sections ↔
      ∃ words : List Bytes, words.flatten = word ∧
        List.Forall₂ Section.HasWord m.sections words := by
    simp only [mem_inTurn_iff, Section.mem_forms_iff]
  rw [decode_eq_ok_iff, forms, Preamble.forms, mul_assoc]
  constructor
  · intro h
    obtain ⟨_, rfl, _, hlater, rfl⟩ := Language.mem_mul.mp h
    obtain ⟨_, rfl, _, hbehind, rfl⟩ := Language.mem_mul.mp hlater
    obtain ⟨words, rfl, hwords⟩ := (hsections _).mp hbehind
    obtain ⟨hlength, hversion⟩ := littleEndian_eq_version_iff.mpr rfl
    exact ⟨_, _, words, rfl, rfl, hlength, hversion, hwords⟩
  · rintro ⟨_, _, words, rfl, rfl, hlength, hversion, hwords⟩
    have hversion := littleEndian_eq_version_iff.mp ⟨hlength, hversion⟩
    refine Language.append_mem_mul rfl (Language.append_mem_mul hversion.symm ?_)
    exact (hsections _).mpr ⟨words, rfl, hwords⟩

end Module

end WasmMeter
