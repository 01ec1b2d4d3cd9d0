import WasmMeter.Binary.Section
import WasmMeter.Module

/-!
# The binary form of modules

A module is eight bytes, of which the last four are its version with the least significant byte
first, and then sections up to the end of the input. `Module.decode` reads one and `Module.encode`
writes one.

Writing takes a hint of how many bytes there may be, and makes room for them in advance. A hint that
is more than an output can have stops the program, and any other one changes nothing.
-/

set_option autoImplicit false

namespace WasmMeter

/-- Reads the bytes in front of the sections. -/
def Preamble.decode : Decoder Preamble := do
  let magic ← Decoder.word 4
  let version ← Decoder.bytes 4
  pure ⟨magic, UInt32.ofNat (Bytes.littleEndian version)⟩

/-- Writes the bytes in front of the sections. -/
def Preamble.encode (preamble : Preamble) : Encoder Unit := do
  .bytes preamble.magic.toList
  .bytes (Bytes.ofNat 4 preamble.version.toNat)

/-- Why a module is not written: the program stops, or the module is refused. -/
inductive EncodeFailure
  | stopped (stop : Stop)
  | refused (error : EncodeError)
  deriving DecidableEq, Repr

namespace Module

/-- Reads a module up to the end of the input. -/
def decoder : Decoder Module := do
  let preamble ← Preamble.decode
  let sections ← Reader.untilEnd Section.decode
  pure ⟨preamble, sections⟩

/-- The module that a byte string encodes. -/
def decode (bytes : Bytes) : Except DecodeError Module := Reader.value (decoder bytes)

/-- Writes a module. -/
def encoder (m : Module) : Encoder Unit := do
  m.preamble.encode
  .each Section.encode m.sections

/-- The bytes of a module. The hint tells how many there may be. -/
def encode (m : Module) (sizeHint : Nat) : Except EncodeFailure Bytes := do
  let out ← (Output.withCapacity sizeHint).mapError .stopped
  (m.encoder.run out).mapError .refused

end Module

end WasmMeter
