import WasmMeter.Leb128
import WasmMeter.Section
import WasmMeter.Text.Utf8

/-!
# What can be wrong with a binary module

`DecodeError` lists the reasons for which bytes are no module, and `EncodeError` the reasons for
which a module has no bytes. Each has one text.
-/

set_option autoImplicit false

namespace WasmMeter

/-- The two hexadecimal digits of a byte, in lower case. -/
def hexByte (b : UInt8) : String :=
  String.ofList [Nat.digitChar (b.toNat / 16), Nat.digitChar (b.toNat % 16)]

/-- Why bytes do not encode what was asked for. -/
inductive DecodeError
  | unexpectedEnd
  | integerRange (bits : Nat)
  | unknownSectionId (byte : UInt8)
  | unknownOpcode (byte : UInt8)
  | invalidLanguageType (byte : UInt8)
  | invalidValueType (byte : UInt8)
  | invalidExternalKind (byte : UInt8)
  | invalidMutability (byte : UInt8)
  | invalidLimitsFlags (flags : Nat)
  | tooManyReturns (count : Nat)
  | sectionLengthMismatch (id : SectionId) (declared consumed : Nat)
  | unterminatedInitializer
  | invalidUtf8 (defect : Utf8.Defect)
  | source (failure : Leb128.Failure) (message : String)
  deriving DecidableEq, Repr

namespace DecodeError

/-- What a number that cannot be read means for what it is part of. -/
def ofLeb128 : Leb128.Error → DecodeError
  | .outOfRange bits => .integerRange bits
  | .unexpectedEnd => .unexpectedEnd
  | .source failure message => .source failure message

/-- The error in words. -/
def message : DecodeError → String
  | .unexpectedEnd => "unexpected end of input"
  | .integerRange bits => "integer does not fit in " ++ toString bits ++ " bits"
  | .unknownSectionId byte => "unknown section id " ++ toString byte.toNat
  | .unknownOpcode byte => "unknown opcode 0x" ++ hexByte byte
  | .invalidLanguageType byte => "invalid language type 0x" ++ hexByte byte
  | .invalidValueType byte => "invalid value type 0x" ++ hexByte byte
  | .invalidExternalKind byte => "invalid external kind " ++ toString byte.toNat
  | .invalidMutability byte => "invalid global mutability flag " ++ toString byte.toNat
  | .invalidLimitsFlags flags => "invalid resizable limits flags " ++ toString flags
  | .tooManyReturns count =>
    "function type declares " ++ toString count ++ " results, at most one is supported"
  | .sectionLengthMismatch id declared consumed =>
    id.title ++ " section declared " ++ toString declared ++ " bytes but only " ++
      toString consumed ++ " were used"
  | .unterminatedInitializer => "initializer expression is not terminated by \x60end\x60"
  | .invalidUtf8 _ => "string is not valid UTF-8"
  | .source _ message => message

/-- What lies behind the error, in words. -/
def cause? : DecodeError → Option String
  | .invalidUtf8 defect => some defect.message
  | _ => none

end DecodeError

/-- Why a module cannot be encoded. -/
inductive EncodeError
  | unknownOpcode (name : String)
  | immediateMismatch (name : String) (expected : Option Shape)
  deriving DecidableEq, Repr

namespace EncodeError

/-- A shape that may be missing, in words. -/
def describeShape : Option Shape → String
  | some shape => "Some(" ++ shape.name ++ ")"
  | none => "None"

/-- The error in words. -/
def message : EncodeError → String
  | .unknownOpcode name => "unknown opcode \x60" ++ name ++ "\x60"
  | .immediateMismatch name expected =>
    "immediate of \x60" ++ name ++ "\x60 does not match its expected shape " ++
      describeShape expected

end EncodeError

end WasmMeter
