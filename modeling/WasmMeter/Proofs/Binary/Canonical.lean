import WasmMeter.Proofs.Binary.Encoding
import WasmMeter.Proofs.Binary.SectionDecoding

/-!
# Encoding is canonical

A byte string decodes to a module if and only if it is one of its forms (`Module.decode_eq_ok_iff`),
and the encoder writes the shortest one (`Module.writesShortest`). So what is encoded after decoding
is the shortest byte string that decodes to the same module, whatever hint is given, unless the hint
asks for more room than an output can have (`Module.stops_encode_decoded`).
-/

set_option autoImplicit false

namespace WasmMeter.Module

/-- A module that was read is written as the one shortest byte string from which it is read, unless
the hint is more than an output can have. -/
theorem encode_of_decode {bytes : Bytes} {m : Module} (h : Module.decode bytes = .ok m) :
    ∃ canonical : Bytes,
      (∀ sizeHint ≤ Output.maxSize, m.encode sizeHint = .ok canonical) ∧
      (∀ sizeHint > Output.maxSize, m.encode sizeHint = .error (.stopped .capacity)) ∧
      Module.decode canonical = .ok m ∧
      (∀ other, Module.decode other = .ok m →
        canonical.length ≤ other.length ∧ (other.length = canonical.length → other = canonical)) ∧
      (canonical = bytes ↔ ∀ other, Module.decode other = .ok m → bytes.length ≤ other.length) := by
  have hbytes := decode_eq_ok_iff.mp h
  obtain ⟨canonical, hwrites, hshortest⟩ := m.writesShortest bytes hbytes
  refine ⟨canonical, fun _ hroom ↦ encode_eq_ok_of_writes hwrites hroom,
    fun _ hroom ↦ encode_eq_stopped hroom m, decode_eq_ok_iff.mpr hshortest.mem,
    fun other hother ↦ ?_, ?_⟩
  · have hmem := decode_eq_ok_iff.mp hother
    exact ⟨hshortest.length_le hmem, fun hlength ↦ hshortest.eq_of_length_le hmem hlength.le⟩
  · constructor
    · rintro rfl other hother
      exact hshortest.length_le (decode_eq_ok_iff.mp hother)
    · intro hminimal
      have hle := hminimal canonical (decode_eq_ok_iff.mpr hshortest.mem)
      exact (hshortest.eq_of_length_le hbytes hle).symm

/-- A module with one body. The lengths of the section and of the body are padded, as is the number
of bodies. -/
def padded : Bytes :=
  [0x00, 0x61, 0x73, 0x6d, 0x01, 0x00, 0x00, 0x00, 0x0a, 0x87, 0x00, 0x81, 0x00, 0x83, 0x00, 0x00,
    0x01, 0x0b]

/-- What `padded` encodes. -/
def unpadded : Module := ⟨.standard, [.code [⟨[], [⟨"nop", none, none⟩, ⟨"end", none, none⟩]⟩]]⟩

theorem encode_of_decode_padded :
    Module.decode padded = .ok unpadded ∧
      ∃ canonical : Bytes,
        (∀ sizeHint ≤ Output.maxSize, unpadded.encode sizeHint = .ok canonical) ∧
        (∀ sizeHint > Output.maxSize, unpadded.encode sizeHint = .error (.stopped .capacity)) ∧
        Module.decode canonical = .ok unpadded ∧
        (∀ other, Module.decode other = .ok unpadded →
          canonical.length ≤ other.length ∧
            (other.length = canonical.length → other = canonical)) ∧
        (canonical = padded ↔
          ∀ other, Module.decode other = .ok unpadded → padded.length ≤ other.length) := by
  have hpadded : Module.decode padded = .ok unpadded := by decide +kernel
  exact ⟨hpadded, encode_of_decode hpadded⟩

/-- The hint of the largest word stops the program, although the module was read. -/
theorem stops_encode_decoded :
    Module.decode [0x00, 0x61, 0x73, 0x6d, 0x01, 0x00, 0x00, 0x00] = .ok empty ∧
      empty.encode 18446744073709551615 = .error (.stopped .capacity) := by
  decide +kernel

end WasmMeter.Module
