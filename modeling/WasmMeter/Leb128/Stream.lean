import WasmMeter.Leb128

/-!
# Streamed numbers

A stream delivers bytes one at a time, and any attempt to get one may fail. A failure is an event
of the stream like a byte, and the stream goes on behind it. An interrupted attempt is made again;
an end that the source reports, and the end of the stream, cut a number short; any other failure is
passed on. Bytes that were read before a failure stay consumed.
-/

set_option autoImplicit false

namespace WasmMeter.Leb128

/-- What one attempt to get a byte meets. -/
inductive Event
  | byte (b : UInt8)
  | failure (failure : Failure) (message : String)
  deriving DecidableEq, Repr

/-- The attempts that a source answers, in order. -/
abbrev Stream := List Event

namespace Stream

/-- The data bytes that are left. -/
def unread (stream : Stream) : Nat :=
  stream.countP fun
    | .byte _ => true
    | .failure _ _ => false

/-- Reads groups from a stream until a step answers, behind groups of `shift` bits that have the
value `value`. -/
def scan {α : Type} (bits : Nat) (step : (shift value : Nat) → UInt8 → Step α) :
    (shift value : Nat) → Reader Event Error α
  | _, _, [] => .error .unexpectedEnd []
  | shift, value, .byte b :: rest =>
    match step shift value b with
    | .more value => scan bits step (shift + 7) value rest
    | .done answer => .ok answer rest
    | .outOfRange => .error (.outOfRange bits) rest
  | shift, value, .failure .interrupted _ :: rest => scan bits step shift value rest
  | _, _, .failure .endOfInput _ :: rest => .error .unexpectedEnd rest
  | _, _, .failure failure message :: rest => .error (.source failure message) rest

/-- Reads a natural number. -/
def unsigned (width : Width) : Reader Event Error Nat :=
  scan width.bits (Unsigned.step width.bits) 0 0

/-- Reads an integer. -/
def signed (width : Width) : Reader Event Error Int :=
  scan width.bits (Signed.step width.bits) 0 0

end Stream

/-! ### Reading in turn -/

/-- A number to read, by its sign and the number of bits that it may take. -/
structure Request where
  signed : Bool
  bits : Nat
  deriving DecidableEq, Repr

/-- Reads the number that is asked for. A width that there is not is refused, and nothing is
read. -/
def Request.read (request : Request) : Reader Event RequestError Int :=
  match Width.ofNat? request.bits with
  | none => Reader.fail .width
  | some width =>
    if request.signed then (Stream.signed width).mapError .number
    else Int.ofNat <$> (Stream.unsigned width).mapError .number

/-- Reads one number after the other, each from where the one before stopped, and answers with
each result the number of data bytes that are left. -/
def Stream.readAll : List Request → Stream → List (Except RequestError Int × Nat)
  | [], _ => []
  | request :: later, stream =>
    let result := request.read stream
    let left := Reader.rest result
    (Reader.value result, Stream.unread left) :: readAll later left

end WasmMeter.Leb128
