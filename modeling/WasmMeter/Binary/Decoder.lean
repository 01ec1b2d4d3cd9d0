import WasmMeter.Binary.Error

/-!
# Decoders

A decoder reads a value from the front of a byte string and leaves the rest; a decoder that fails
leaves what it has not taken. These are the decoders of the parts that everything else consists of:
bytes, numbers, texts, and lists that are counted in front.
-/

set_option autoImplicit false

namespace WasmMeter

/-- Reads from bytes. -/
abbrev Decoder := Reader UInt8 DecodeError

namespace Decoder

/-- One byte. -/
def byte : Decoder UInt8 := Reader.next .unexpectedEnd

/-- A number of bytes. -/
def bytes (count : Nat) : Decoder Bytes := Reader.exactly count .unexpectedEnd

/-- A word of a fixed number of bytes. -/
def word (count : Nat) : Decoder (Vector UInt8 count) := do
  match Bytes.toWord? count (← bytes count) with
  | some word => pure word
  | none => Reader.fail .unexpectedEnd

/-- A natural number in LEB128. -/
def unsigned (width : Leb128.Width) : Decoder Nat :=
  (Leb128.unsigned width).mapError DecodeError.ofLeb128

/-- An integer in LEB128. -/
def signed (width : Leb128.Width) : Decoder Int :=
  (Leb128.signed width).mapError DecodeError.ofLeb128

/-- A flag in LEB128. -/
def varUint1 : Decoder UInt8 := UInt8.ofNat <$> unsigned .w1

/-- A natural number of thirty-two bits in LEB128. -/
def varUint32 : Decoder UInt32 := UInt32.ofNat <$> unsigned .w32

/-- An integer of thirty-two bits in LEB128. -/
def varInt32 : Decoder Int32 := Int32.ofInt <$> signed .w32

/-- An integer of sixty-four bits in LEB128. -/
def varInt64 : Decoder Int64 := Int64.ofInt <$> signed .w64

/-- A text of a number of bytes. The bytes are taken even if they encode no text. -/
def text (count : Nat) : Decoder String := do
  match Utf8.decode (← bytes count) with
  | .ok text => pure text
  | .error defect => Reader.fail (.invalidUtf8 defect)

/-- Bytes behind their number. -/
def countedBytes : Decoder Bytes := do bytes (← varUint32).toNat

/-- A text behind the number of its bytes. -/
def countedText : Decoder String := do text (← varUint32).toNat

/-- A list behind the number of its elements. -/
def counted {α : Type} (element : Decoder α) : Decoder (List α) := do
  Reader.times element (← varUint32).toNat

/-- What a decoder reads from a number of bytes that belong to it, and what it leaves of them. -/
def region {α : Type} (count : Nat) (content : Decoder α) : Decoder (α × Bytes) := do
  Reader.inside (← bytes count) content

end Decoder

end WasmMeter
