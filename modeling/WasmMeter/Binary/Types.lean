import WasmMeter.Binary.Decoder
import WasmMeter.Binary.Encoder

/-!
# The binary form of types

Type constructors, kinds and the mutability of a global are single bytes. Whether limits have a
maximum is told by a flag in front of them, which is judged after the initial size has been read. A
signature has at most one result.
-/

set_option autoImplicit false

namespace WasmMeter

/-! ### Single bytes -/

/-- The value type of a byte. -/
def ValueType.ofByte (byte : UInt8) : Except DecodeError ValueType :=
  match ofByte? byte with
  | some type => .ok type
  | none => .error (.invalidValueType byte)

/-- The type constructor of a byte. -/
def LanguageType.ofByte (byte : UInt8) : Except DecodeError LanguageType :=
  match ofByte? byte with
  | some type => .ok type
  | none => .error (.invalidLanguageType byte)

/-- The kind of a byte. -/
def ExternalKind.ofByte (byte : UInt8) : Except DecodeError ExternalKind :=
  match ofByte? byte with
  | some kind => .ok kind
  | none => .error (.invalidExternalKind byte)

/-- A value that one byte determines. -/
def Decoder.ofByte {α : Type} (f : UInt8 → Except DecodeError α) : Decoder α := do
  match f (← byte) with
  | .ok a => pure a
  | .error e => Reader.fail e

/-- Reads a value type. -/
def ValueType.decode : Decoder ValueType := .ofByte ValueType.ofByte

/-- Writes a value type. -/
def ValueType.encode (type : ValueType) : Encoder Unit := .byte type.toByte

/-- Reads a type constructor. -/
def LanguageType.decode : Decoder LanguageType := .ofByte LanguageType.ofByte

/-- Writes a type constructor. -/
def LanguageType.encode (type : LanguageType) : Encoder Unit := .byte type.toByte

/-- Reads a kind. -/
def ExternalKind.decode : Decoder ExternalKind := .ofByte ExternalKind.ofByte

/-- Writes a kind. -/
def ExternalKind.encode (kind : ExternalKind) : Encoder Unit := .byte kind.toByte

/-! ### Limits, tables and globals -/

/-- Reads limits. -/
def Limits.decode : Decoder Limits := do
  let flags ← Decoder.varUint32
  let initial ← Decoder.varUint32
  match flags.toNat with
  | 0 => pure ⟨initial, none⟩
  | 1 => do
    let maximum ← Decoder.varUint32
    pure ⟨initial, some maximum⟩
  | flags => Reader.fail (.invalidLimitsFlags flags)

/-- Writes limits. -/
def Limits.encode (limits : Limits) : Encoder Unit :=
  match limits.maximum with
  | some maximum => do
    .unsigned 1
    .varUint32 limits.initial
    .varUint32 maximum
  | none => do
    .unsigned 0
    .varUint32 limits.initial

/-- Reads the type of a table. -/
def TableType.decode : Decoder TableType := do
  let elementType ← LanguageType.decode
  let limits ← Limits.decode
  pure ⟨elementType, limits⟩

/-- Writes the type of a table. -/
def TableType.encode (type : TableType) : Encoder Unit := do
  type.elementType.encode
  type.limits.encode

/-- The mutability of a byte. -/
def GlobalType.mutabilityOfByte (byte : UInt8) : Except DecodeError Bool :=
  match byte with
  | 0 => .ok false
  | 1 => .ok true
  | other => .error (.invalidMutability other)

/-- Reads the type of a global. -/
def GlobalType.decode : Decoder GlobalType := do
  let contentType ← ValueType.decode
  let isMutable ← Decoder.ofByte mutabilityOfByte
  pure ⟨contentType, isMutable⟩

/-- Writes the type of a global. -/
def GlobalType.encode (type : GlobalType) : Encoder Unit := do
  type.contentType.encode
  .byte (if type.isMutable then 1 else 0)

/-! ### Signatures -/

/-- Reads the result of a signature behind the number of results. -/
def FuncType.decodeResult : Decoder (Option ValueType) := do
  let count ← Decoder.varUint32
  match count.toNat with
  | 0 => pure none
  | 1 => some <$> ValueType.decode
  | count => Reader.fail (.tooManyReturns count)

/-- Reads a signature. -/
def FuncType.decode : Decoder FuncType := do
  let form ← LanguageType.decode
  let params ← Decoder.counted ValueType.decode
  let result ← decodeResult
  pure ⟨form, params, result⟩

/-- Writes a signature. -/
def FuncType.encode (type : FuncType) : Encoder Unit := do
  type.form.encode
  .counted ValueType.encode type.params
  match type.result with
  | some result => do
    .unsigned 1
    result.encode
  | none => .unsigned 0

end WasmMeter
