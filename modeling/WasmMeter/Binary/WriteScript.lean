import WasmMeter.Binary.Output
import WasmMeter.Text.Utf8

/-!
# Scripts of writes

A script is a list of writes to an output, carried out one after the other. A write may open a
region, run another script in it, and then close the region or leave it as it is. The gap of a
region may be of any width, so a script stops the program where it asks for more room than an output
can have.

`WriteOp.run` carries out one write and `WriteOp.runAll` a script.
-/

set_option autoImplicit false

namespace WasmMeter

/-- A write. A region is closed behind its script unless it is abandoned. -/
inductive WriteOp
  | byte (b : UInt8)
  | bytes (content : Bytes)
  | text (content : String)
  | varUint (n : UInt64)
  | varInt (i : Int64)
  | stream (content : Bytes)
  | region (reserved : UInt64) (script : List WriteOp) (abandoned : Bool)
  deriving Repr, Inhabited

/-- The answer to a write: nothing, a number of bytes, or what happened in a region, the number of
bytes written into it, and their number again from where it was closed. -/
inductive WriteAnswer
  | done
  | length (count : Nat)
  | region (steps : List (WriteAnswer × Nat)) (payload : Nat) (finished : Option Nat)
  deriving Repr

namespace WriteOp

mutual

/-- Carries out a write. -/
def run (overflow : Overflow) : WriteOp → Output → Except Stop (WriteAnswer × Output)
  | .byte b, out => (.done, ·) <$> out.tryAppend [b]
  | .bytes content, out => (.done, ·) <$> out.tryAppend content
  | .text content, out => (.done, ·) <$> out.tryAppend (Utf8.encode content)
  | .varUint n, out =>
    let bytes := Leb128.encodeUnsigned n.toNat
    (.length bytes.length, ·) <$> out.tryAppend bytes
  | .varInt i, out =>
    let bytes := Leb128.encodeSigned i.toInt
    (.length bytes.length, ·) <$> out.tryAppend bytes
  | .stream content, out => (.length content.length, ·) <$> out.tryAppend content
  | .region reserved script abandoned, out => do
    let (part, opened) ← out.tryOpenRegion overflow reserved.toNat
    let (steps, written) ← runAll overflow script opened
    let payload ← written.tryPayloadLength overflow part
    if abandoned then pure (.region steps payload none, written)
    else
      let (length, closed) ← written.tryCloseRegion overflow part
      pure (.region steps payload (some length), closed)

/-- Carries out a script. Each answer stands with the number of bytes that the output then has. -/
def runAll (overflow : Overflow) :
    List WriteOp → Output → Except Stop (List (WriteAnswer × Nat) × Output)
  | [], out => pure ([], out)
  | op :: later, out => do
    let (answer, written) ← op.run overflow out
    let (steps, final) ← runAll overflow later written
    pure ((answer, written.size) :: steps, final)

end

end WriteOp

end WasmMeter
