import WasmMeter.Binary.Error
import WasmMeter.Binary.Output

/-!
# Encoders

An encoder appends bytes to an output. One that fails leaves the bytes that it wrote before it did.
These are the encoders of bytes, numbers, texts and counted lists, each the counterpart of a
decoder.
-/

set_option autoImplicit false

namespace WasmMeter

/-- Writes to an output. -/
abbrev Encoder := EStateM EncodeError Output

namespace Encoder

/-- Fails and writes nothing. -/
def fail {α : Type} (e : EncodeError) : Encoder α := fun out ↦ .error e out

/-- One byte. -/
def byte (b : UInt8) : Encoder Unit := fun out ↦ .ok () (out.push b)

/-- A number of bytes. -/
def bytes (content : Bytes) : Encoder Unit := fun out ↦ .ok () (out.append content)

/-- A natural number in LEB128. -/
def unsigned (n : Nat) : Encoder Unit := bytes (Leb128.encodeUnsigned n)

/-- An integer in LEB128. -/
def signed (i : Int) : Encoder Unit := bytes (Leb128.encodeSigned i)

/-- A natural number of thirty-two bits in LEB128. -/
def varUint32 (n : UInt32) : Encoder Unit := unsigned n.toNat

/-- Bytes behind their number. -/
def countedBytes (content : Bytes) : Encoder Unit := do
  unsigned content.length
  bytes content

/-- A text behind the number of its bytes. -/
def countedText (text : String) : Encoder Unit := countedBytes (Utf8.encode text)

/-- The elements of a list in turn. -/
def each {α : Type} (element : α → Encoder Unit) : List α → Encoder Unit
  | [] => pure ()
  | a :: later => do
    element a
    each element later

/-- A list behind the number of its elements. -/
def counted {α : Type} (element : α → Encoder Unit) (list : List α) : Encoder Unit := do
  unsigned list.length
  each element list

/-- The gap that is left for a length: the widest number of thirty-two bits. -/
def lengthReserve : Nat := 5

/-- Content behind the number of its bytes. If the content fails, the gap for the length stays. -/
def region (content : Encoder Unit) : Encoder Unit := fun out ↦
  let (region, opened) := out.openRegion lengthReserve
  match content opened with
  | .ok _ written => .ok () (written.closeRegion region)
  | .error e written => .error e written

/-- The bytes of an output once an encoder has written to it. -/
def run (encoder : Encoder Unit) (out : Output) : Except EncodeError Bytes :=
  match encoder out with
  | .ok _ written => .ok written.toList
  | .error e _ => .error e

end Encoder

end WasmMeter
