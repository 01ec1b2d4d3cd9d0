import WasmMeter.Leb128

/-!
# Output

An output is a growing sequence of bytes. A region is a part of it whose length is written in front
of it once it is known: opening a region leaves a gap, and closing it puts the length of what was
written since in the place of the gap, which becomes as narrow or as wide as the length needs.
Regions may nest. One that is never closed leaves its gap as zero bytes.

No output has more than `Output.maxSize` bytes. Room for more can only be asked for, in advance
(`Output.withCapacity`) or by the gap of a region, and then the program stops. `Output.tryAppend`,
`Output.tryOpenRegion` and `Output.tryCloseRegion` compute sizes in machine words and check them.
`Output.append`, `Output.openRegion` and `Output.closeRegion` are for bytes and narrow gaps that
memory has room for, and check nothing.

The lemmas say what each operation does to the list of bytes; `toList_closeRegion` is the one on
which the framing of sections and bodies rests.
-/

set_option autoImplicit false

namespace WasmMeter

/-! ### Machine words -/

/-- Why the program stops while it writes: more room is asked for than an output can have, a sum or
a difference is no machine word, or a part of an output ends in front of its start or behind the
end of the output. -/
inductive Stop
  | capacity
  | sum
  | difference
  | reversed (start behind : Nat)
  | pastEnd (behind size : Nat)
  deriving DecidableEq, Repr

/-- The reason in words. -/
def Stop.message : Stop → String
  | .capacity => "capacity overflow"
  | .sum => "attempt to add with overflow"
  | .difference => "attempt to subtract with overflow"
  | .reversed start behind =>
    "slice index starts at " ++ toString start ++ " but ends at " ++ toString behind
  | .pastEnd behind size =>
    "range end index " ++ toString behind ++ " out of range for slice of length " ++ toString size

/-- What becomes of a sum or a difference that is no machine word. It is checked for, and stops the
program, or it is not, and wraps around. -/
inductive Overflow
  | stops
  | wraps
  deriving DecidableEq, Repr

namespace Overflow

/-- The sum of two words. -/
def add (overflow : Overflow) (a b : Nat) : Except Stop Nat :=
  if a + b < UInt64.size then .ok (a + b)
  else
    match overflow with
    | .stops => .error .sum
    | .wraps => .ok ((a + b) % UInt64.size)

/-- The difference of two words. -/
def sub (overflow : Overflow) (a b : Nat) : Except Stop Nat :=
  if b ≤ a then .ok (a - b)
  else
    match overflow with
    | .stops => .error .difference
    | .wraps => .ok ((a + UInt64.size - b) % UInt64.size)

end Overflow

/-! ### Outputs -/

/-- The bytes written so far. -/
structure Output where
  bytes : Array UInt8
  deriving DecidableEq, Repr

/-- A part of an output whose length is still open: where its gap starts, and how wide that is. -/
structure Region where
  start : Nat
  reserved : Nat
  deriving DecidableEq, Repr

namespace Output

/-- The most bytes that an output can have: half of what a machine word can count, less one. -/
def maxSize : Nat := UInt64.size / 2 - 1

/-- The output without bytes, with room for a number of them. -/
def withCapacity (capacity : Nat) : Except Stop Output :=
  if capacity ≤ maxSize then .ok ⟨Array.emptyWithCapacity capacity⟩ else .error .capacity

/-- The output without bytes. -/
def empty : Output := ⟨#[]⟩

/-- The number of bytes written. -/
def size (out : Output) : Nat := out.bytes.size

/-- The bytes as a list. -/
def toList (out : Output) : Bytes := out.bytes.toList

/-- The output with a byte behind it. -/
def push (out : Output) (b : UInt8) : Output := ⟨out.bytes.push b⟩

/-- The output with bytes behind it. -/
def append (out : Output) (bytes : Bytes) : Output := ⟨out.bytes ++ bytes⟩

/-- The output with a natural number in LEB128 behind it, and the number of bytes that it takes. -/
def pushUnsigned (out : Output) (n : Nat) : Nat × Output :=
  let bytes := Leb128.encodeUnsigned n
  (bytes.length, out.append bytes)

/-- The output with an integer in LEB128 behind it, and the number of bytes that it takes. -/
def pushSigned (out : Output) (i : Int) : Nat × Output :=
  let bytes := Leb128.encodeSigned i
  (bytes.length, out.append bytes)

/-- Opens a region with a gap of zero bytes. -/
def openRegion (out : Output) (reserved : Nat) : Region × Output :=
  (⟨out.size, reserved⟩, out.append (List.replicate reserved 0))

/-- The number of bytes written into an open region, the gap not counted. -/
def payloadLength (out : Output) (region : Region) : Nat :=
  out.size - region.start - region.reserved

/-- Closes a region: its length takes the place of the gap. -/
def closeRegion (out : Output) (region : Region) : Output :=
  let length := Leb128.encodeUnsigned (out.payloadLength region)
  let before := out.bytes.extract 0 region.start
  let payload := out.bytes.extract (region.start + region.reserved) out.size
  ⟨before ++ length ++ payload⟩

/-! ### Checked sizes -/

/-- The output with bytes behind it, if it can have so many. -/
def tryAppend (out : Output) (bytes : Bytes) : Except Stop Output :=
  if out.size + bytes.length ≤ maxSize then .ok (out.append bytes) else .error .capacity

/-- The output cut off or filled up with zero bytes to a size, if it can have this size. -/
def resize (out : Output) (size : Nat) : Except Stop Output :=
  if size ≤ maxSize then
    .ok (append ⟨out.bytes.extract 0 size⟩ (List.replicate (size - out.size) 0))
  else .error .capacity

/-- Opens a region with a gap of zero bytes. -/
def tryOpenRegion (overflow : Overflow) (out : Output) (reserved : Nat) :
    Except Stop (Region × Output) := do
  let behind ← overflow.add out.size reserved
  let opened ← out.resize behind
  pure (⟨out.size, reserved⟩, opened)

/-- The number of bytes written into an open region, the gap not counted. -/
def tryPayloadLength (overflow : Overflow) (out : Output) (region : Region) : Except Stop Nat := do
  let behind ← overflow.sub out.size region.start
  overflow.sub behind region.reserved

/-- Closes a region, and tells its length, which takes the place of the gap. -/
def tryCloseRegion (overflow : Overflow) (out : Output) (region : Region) :
    Except Stop (Nat × Output) := do
  let length ← out.tryPayloadLength overflow region
  let behind ← overflow.add region.start region.reserved
  if behind < region.start then .error (.reversed region.start behind)
  else if out.size < behind then .error (.pastEnd behind out.size)
  else
    let closed := out.closeRegion region
    if closed.size ≤ maxSize then .ok (length, closed) else .error .capacity

/-! ### The bytes of an output -/

@[simp]
theorem toList_empty : empty.toList = [] := rfl

theorem withCapacity_eq (capacity : Nat) :
    withCapacity capacity = if capacity ≤ maxSize then .ok empty else .error .capacity := rfl

@[simp]
theorem toList_push (out : Output) (b : UInt8) : (out.push b).toList = out.toList ++ [b] := by
  simp [push, toList]

@[simp]
theorem toList_append (out : Output) (bytes : Bytes) :
    (out.append bytes).toList = out.toList ++ bytes := by
  simp [append, toList]

@[simp]
theorem toList_pushUnsigned (out : Output) (n : Nat) :
    (out.pushUnsigned n).2.toList = out.toList ++ Leb128.encodeUnsigned n :=
  toList_append out (Leb128.encodeUnsigned n)

@[simp]
theorem toList_pushSigned (out : Output) (i : Int) :
    (out.pushSigned i).2.toList = out.toList ++ Leb128.encodeSigned i :=
  toList_append out (Leb128.encodeSigned i)

@[simp]
theorem toList_openRegion (out : Output) (reserved : Nat) :
    (out.openRegion reserved).2.toList = out.toList ++ List.replicate reserved 0 :=
  toList_append out (List.replicate reserved 0)

theorem toList_closeRegion (out : Output) (region : Region) :
    (out.closeRegion region).toList =
      out.toList.take region.start ++
        (Leb128.encodeUnsigned (out.payloadLength region) ++
          out.toList.drop (region.start + region.reserved)) := by
  have hsize : out.toList.drop (region.start + region.reserved) =
      (out.toList.take out.size).drop (region.start + region.reserved) := by
    rw [size, toList, ← Array.length_toList, List.take_length]
  rw [hsize]
  simp [closeRegion, toList, List.extract, List.drop_take]

@[simp]
theorem length_toList (out : Output) : out.toList.length = out.size := by
  simp [toList, size]

end Output

end WasmMeter
