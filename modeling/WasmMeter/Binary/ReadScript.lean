import WasmMeter.Binary.Decoder

/-!
# Scripts of reads

A script is a list of reads from a buffer, carried out one after the other. A read may open a part
of what is left as a buffer of its own, or a copy of the buffer, and run another script there. A
read that fails does not end its script.

`ReadOp.run` carries out one read and `ReadOp.runAll` a script. The answer to a read is told
together with the position that it leaves.
-/

set_option autoImplicit false

namespace WasmMeter

/-- A position in a buffer. -/
structure Cursor where
  buffer : Bytes
  position : Nat
  deriving DecidableEq, Repr

namespace Cursor

/-- The start of a buffer. -/
def start (buffer : Bytes) : Cursor := ⟨buffer, 0⟩

/-- What is left of the buffer. -/
def rest (cursor : Cursor) : Bytes := cursor.buffer.drop cursor.position

/-- The number of bytes that are left. -/
def remaining (cursor : Cursor) : Nat := cursor.buffer.length - cursor.position

/-- Whether nothing is left. -/
def atEnd (cursor : Cursor) : Bool := cursor.buffer.length ≤ cursor.position

/-- What a reader answers at a position, and the position behind what it took. -/
def read {ε α : Type} (cursor : Cursor) (p : Reader UInt8 ε α) : Except ε α × Cursor :=
  let result := p cursor.rest
  let position := cursor.buffer.length - (Reader.rest result).length
  (Reader.value result, { cursor with position := position })

end Cursor

/-- A read. -/
inductive ReadOp
  | byte
  | bytes (count : Nat)
  | word (count : Nat)
  | text (count : Nat)
  | peek (offset : Nat)
  | varUint32
  | varInt32
  | varInt64
  | varUint (bits : Nat)
  | varInt (bits : Nat)
  | atMost (count : Nat)
  | region (count : Nat) (script : List ReadOp)
  | copy (script : List ReadOp)
  deriving Repr, Inhabited

/-- Why a read has no answer. A number of any width has errors of its own. -/
inductive ReadFailure
  | decode (error : DecodeError)
  | number (error : Leb128.RequestError)
  deriving DecidableEq, Repr

/-- The answer to a read. Numbers that may need more than fifty-three bits are told apart, as not
every reader of an answer can hold them. -/
inductive ReadAnswer
  | bytes (content : Bytes)
  | text (content : String)
  | peeked (byte : Option UInt8)
  | number (value : Int)
  | wideNumber (value : Int)
  | nested (steps : List (ReadAnswer × Cursor))
  | failed (failure : ReadFailure)
  deriving Repr

namespace ReadAnswer

/-- The answer that a decoder gives. -/
def ofDecoder {α : Type} (f : α → ReadAnswer) (result : Except DecodeError α × Cursor) :
    ReadAnswer × Cursor :=
  match result with
  | (.ok a, cursor) => (f a, cursor)
  | (.error e, cursor) => (.failed (.decode e), cursor)

/-- The answer that a reader of numbers gives. -/
def ofNumber {α : Type} (f : α → Int) (result : Except Leb128.Error α × Cursor) :
    ReadAnswer × Cursor :=
  match result with
  | (.ok a, cursor) => (.wideNumber (f a), cursor)
  | (.error e, cursor) => (.failed (.number (.number e)), cursor)

end ReadAnswer

namespace ReadOp

mutual

/-- Carries out a read. -/
def run : ReadOp → Cursor → ReadAnswer × Cursor
  | .byte, cursor => ReadAnswer.ofDecoder (fun b ↦ .number b.toNat) (cursor.read Decoder.byte)
  | .bytes count, cursor => ReadAnswer.ofDecoder .bytes (cursor.read (Decoder.bytes count))
  | .word count, cursor => ReadAnswer.ofDecoder (.bytes ·.toList) (cursor.read (Decoder.word count))
  | .text count, cursor => ReadAnswer.ofDecoder .text (cursor.read (Decoder.text count))
  | .peek offset, cursor => (.peeked cursor.rest[offset]?, cursor)
  | .varUint32, cursor => ReadAnswer.ofDecoder (.number ·.toNat) (cursor.read Decoder.varUint32)
  | .varInt32, cursor => ReadAnswer.ofDecoder (.number ·.toInt) (cursor.read Decoder.varInt32)
  | .varInt64, cursor => ReadAnswer.ofDecoder (.wideNumber ·.toInt) (cursor.read Decoder.varInt64)
  | .varUint bits, cursor =>
    match Leb128.Width.ofNat? bits with
    | some width => ReadAnswer.ofNumber Int.ofNat (cursor.read (Leb128.unsigned width))
    | none => (.failed (.number .width), cursor)
  | .varInt bits, cursor =>
    match Leb128.Width.ofNat? bits with
    | some width => ReadAnswer.ofNumber id (cursor.read (Leb128.signed width))
    | none => (.failed (.number .width), cursor)
  | .atMost count, cursor =>
    ReadAnswer.ofDecoder .bytes (cursor.read (Reader.atMost count : Decoder Bytes))
  | .region count script, cursor =>
    match cursor.read (Decoder.bytes count) with
    | (.ok content, cursor) => (.nested (runAll script (.start content)).1, cursor)
    | (.error e, cursor) => (.failed (.decode e), cursor)
  | .copy script, cursor => (.nested (runAll script cursor).1, cursor)

/-- Carries out a script. Each answer stands with the position behind its read. -/
def runAll : List ReadOp → Cursor → List (ReadAnswer × Cursor) × Cursor
  | [], cursor => ([], cursor)
  | op :: later, cursor =>
    let step := op.run cursor
    let (steps, cursor) := runAll later step.2
    (step :: steps, cursor)

end

end ReadOp

end WasmMeter
