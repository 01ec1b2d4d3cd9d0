import WasmMeter.Reader
import WasmMeter.Bytes

/-!
# LEB128 numbers

A number is cut into groups of seven bits, least significant group first. Every group is stored in
a byte, and all bytes but the last have their highest bit set. A signed number is the two's
complement form of the same: the bit `40` of the last byte tells its sign.

`Leb128.encodeUnsigned` and `Leb128.encodeSigned` write a number with the fewest groups. A reader
accepts every form, padded or not, that takes no more groups than the width needs and whose value
fits: `Leb128.unsigned` and `Leb128.signed` read from bytes, and `Leb128.Unsigned.step` and
`Leb128.Signed.step` are the single steps of which these readers consist.
-/

set_option autoImplicit false

namespace WasmMeter.Leb128

/-! ### Writing -/

/-- The low seven bits of a byte. -/
def payload (b : UInt8) : Nat := b.toNat % 128

/-- Whether another group follows the byte. -/
def continues (b : UInt8) : Bool := 128 ≤ b.toNat

/-- Whether the bit is set that makes the last group of a signed number negative. -/
def signed? (b : UInt8) : Bool := 64 ≤ payload b

/-- The byte of a group that ends a number. -/
def lastGroup (payload : Nat) : UInt8 := UInt8.ofNat payload

/-- The byte of a group that another one follows. -/
def innerGroup (payload : Nat) : UInt8 := UInt8.ofNat (payload + 128)

/-- The shortest form of a natural number. -/
def encodeUnsigned (n : Nat) : Bytes :=
  if n < 128 then [lastGroup n] else innerGroup (n % 128) :: encodeUnsigned (n / 128)

/-- The shortest form of an integer. A group ends the number when all that follows would repeat
its sign bit. -/
def encodeSigned (i : Int) : Bytes :=
  let low := (i % 128).toNat
  if -64 ≤ i ∧ i < 64 then [lastGroup low] else innerGroup low :: encodeSigned (i / 128)
termination_by i.natAbs

/-! ### Reading -/

/-- The number of bits that a value may take. -/
structure Width where
  bits : Nat
  pos : 0 < bits := by decide
  le : bits ≤ 64 := by decide
  deriving DecidableEq, Repr

/-- The width of a number of bits, if there is one. -/
def Width.ofNat? (bits : Nat) : Option Width :=
  if h : 0 < bits ∧ bits ≤ 64 then some ⟨bits, h.1, h.2⟩ else none

/-- One bit. -/
def Width.w1 : Width := ⟨1, by decide, by decide⟩

/-- Thirty-two bits. -/
def Width.w32 : Width := ⟨32, by decide, by decide⟩

/-- Sixty-four bits. -/
def Width.w64 : Width := ⟨64, by decide, by decide⟩

/-- Why bytes could not be had from a source. Kinds that have no constructor go by their names. -/
inductive Failure
  | interrupted
  | endOfInput
  | permissionDenied
  | other
  | named (kind : String)
  deriving DecidableEq, Repr

/-- Why a number could not be read. -/
inductive Error
  | outOfRange (bits : Nat)
  | unexpectedEnd
  | source (failure : Failure) (message : String)
  deriving DecidableEq, Repr

/-- The error in words. -/
def Error.message : Error → String
  | .outOfRange bits => "integer does not fit in " ++ toString bits ++ " bits"
  | .unexpectedEnd => "unexpected end of input while reading LEB128 integer"
  | .source _ message => message

/-- Why a number of a width that is given as a number could not be read: there is no such width, or
the number itself is wrong. -/
inductive RequestError
  | width
  | number (error : Error)
  deriving DecidableEq, Repr

/-- The error in words. -/
def RequestError.message : RequestError → String
  | .width => "assertion failed: bits > 0 && bits <= 64"
  | .number error => error.message

/-- How reading goes on after one byte: with more groups, whose predecessors have the value
`value`, with an answer, or not at all. -/
inductive Step (α : Type)
  | more (value : Nat)
  | done (answer : α)
  | outOfRange
  deriving DecidableEq, Repr

/-- One byte of a natural number of at most `bits` bits, behind groups of `shift` bits that have
the value `value`. -/
def Unsigned.step (bits shift value : Nat) (b : UInt8) : Step Nat :=
  if bits ≤ shift ∨ Nat.pow 2 (bits - shift) ≤ payload b then .outOfRange
  else
    let value := value + payload b * Nat.pow 2 shift
    if continues b then .more value else .done value

/-- One byte of an integer of at most `bits` bits, behind groups of `shift` bits that have the
value `value`. The tenth byte of a number has room for the sign alone, so it must be `00` or
`7f`. -/
def Signed.step (bits shift value : Nat) (b : UInt8) : Step Int :=
  if bits ≤ shift then .outOfRange
  else if shift = 63 ∧ b ≠ 0x00 ∧ b ≠ 0x7f then .outOfRange
  else
    let value := value + payload b * Nat.pow 2 shift
    if continues b then .more value
    else
      let answer : Int := if signed? b then (value : Int) - Nat.pow 2 (shift + 7) else value
      let bound : Int := Nat.pow 2 (bits - 1)
      if -bound ≤ answer ∧ answer < bound then .done answer else .outOfRange

/-- Reads groups from bytes until a step answers, behind groups of `shift` bits that have the
value `value`. The byte at which reading stops is taken. -/
def scan {α : Type} (bits : Nat) (step : (shift value : Nat) → UInt8 → Step α) :
    (shift value : Nat) → Reader UInt8 Error α
  | _, _, [] => .error .unexpectedEnd []
  | shift, value, b :: rest =>
    match step shift value b with
    | .more value => scan bits step (shift + 7) value rest
    | .done answer => .ok answer rest
    | .outOfRange => .error (.outOfRange bits) rest

/-- Reads a natural number. -/
def unsigned (width : Width) : Reader UInt8 Error Nat :=
  scan width.bits (Unsigned.step width.bits) 0 0

/-- Reads an integer. -/
def signed (width : Width) : Reader UInt8 Error Int :=
  scan width.bits (Signed.step width.bits) 0 0

/-- The natural number below `2 ^ 64` at the front of a byte string. -/
def decodeUnsigned (bytes : Bytes) : Except Error Nat := Reader.value (unsigned .w64 bytes)

/-- The integer of sixty-four bits at the front of a byte string. -/
def decodeSigned (bytes : Bytes) : Except Error Int := Reader.value (signed .w64 bytes)

end WasmMeter.Leb128
