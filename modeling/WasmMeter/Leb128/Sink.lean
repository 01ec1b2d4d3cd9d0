import WasmMeter.Leb128

/-!
# Numbers written into a bounded sink

A sink stores bytes until it is full. A number that does not fit leaves as many of its bytes as
there is room for, and the write fails.
-/

set_option autoImplicit false

namespace WasmMeter.Leb128

/-- The bytes that a sink holds and the number of bytes it still takes. -/
structure Sink where
  stored : Bytes
  room : Nat
  deriving DecidableEq, Repr

/-- A sink could not take all bytes of a number. -/
inductive WriteError
  | full
  deriving DecidableEq, Repr

/-- The error in words. -/
def WriteError.message : WriteError → String
  | .full => "failed to write whole buffer"

namespace Sink

/-- The sink that takes `limit` bytes and holds none. -/
def empty (limit : Nat) : Sink := ⟨[], limit⟩

/-- Stores as many of the bytes as there is room for, and answers how many were offered if that
was all of them. -/
def write (bytes : Bytes) : EStateM WriteError Sink Nat := fun sink ↦
  let sink' : Sink := ⟨sink.stored ++ bytes.take sink.room, sink.room - bytes.length⟩
  if bytes.length ≤ sink.room then .ok bytes.length sink' else .error .full sink'

/-- Writes the shortest form of a natural number. -/
def writeUnsigned (n : Nat) : EStateM WriteError Sink Nat := write (encodeUnsigned n)

/-- Writes the shortest form of an integer. -/
def writeSigned (i : Int) : EStateM WriteError Sink Nat := write (encodeSigned i)

end Sink

end WasmMeter.Leb128
