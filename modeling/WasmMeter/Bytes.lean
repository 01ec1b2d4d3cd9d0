/-!
# Byte strings

Binary modules, texts and encoded numbers are all lists of bytes. A number of fixed width is stored
least significant byte first: `Bytes.littleEndian` reads such a list and `Bytes.ofNat` writes one.
-/

set_option autoImplicit false

namespace WasmMeter

/-- A finite sequence of bytes. -/
abbrev Bytes := List UInt8

namespace Bytes

/-- The number whose digits to base 256 are the bytes, least significant first. -/
def littleEndian : Bytes → Nat
  | [] => 0
  | b :: rest => b.toNat + 256 * littleEndian rest

/-- The lowest `width` digits to base 256 of a number, least significant first. -/
def ofNat : (width : Nat) → Nat → Bytes
  | 0, _ => []
  | width + 1, n => UInt8.ofNat n :: ofNat width (n / 256)

@[simp]
theorem length_ofNat (width n : Nat) : (ofNat width n).length = width := by
  induction width generalizing n with
  | zero => rfl
  | succ width ih => simp [ofNat, ih]

/-- Bytes as a word, if they are as many as it has. -/
def toWord? (width : Nat) (bytes : Bytes) : Option (Vector UInt8 width) :=
  if h : bytes.length = width then some ⟨bytes.toArray, List.size_toArray.trans h⟩ else none

theorem toWord?_eq_some_iff {width : Nat} {bytes : Bytes} {word : Vector UInt8 width} :
    toWord? width bytes = some word ↔ word.toList = bytes := by
  constructor
  · intro h
    unfold toWord? at h
    split at h
    · cases h; rfl
    · cases h
  · rintro rfl
    simp [toWord?, Vector.toList]

/-- The lowest `width` digits to base 256 of a number, as a word of that many bytes. -/
def word (width n : Nat) : Vector UInt8 width :=
  ⟨(ofNat width n).toArray, List.size_toArray.trans (length_ofNat width n)⟩

@[simp]
theorem toList_word (width n : Nat) : (word width n).toList = ofNat width n := by
  simp [word, Vector.toList]

end Bytes

end WasmMeter
