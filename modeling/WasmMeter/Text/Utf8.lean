import WasmMeter.Bytes

/-!
# UTF-8

Names inside a module are UTF-8 text. `Utf8.encode` writes the bytes of a string. `Utf8.pieces`
cuts any byte string into characters and defects: a defect is a sequence that cannot be continued
to a character, as long as the bytes that could still have begun one, or a sequence that the end of
the input cuts short. `Utf8.decode` accepts the byte strings without a defect and reports the first
one otherwise, with the index at which it starts.

Surrogates, code points past `10FFFF` and characters written with more bytes than they need are
defects: the second byte of a sequence is judged by the range that its first byte allows.
-/

set_option autoImplicit false

namespace WasmMeter.Utf8

/-! ### Writing -/

/-- The bytes of one character. -/
def encodeChar (c : Char) : Bytes :=
  let n := c.toNat
  if n < 0x80 then [UInt8.ofNat n]
  else if n < 0x800 then [UInt8.ofNat (0xC0 + n / 64), UInt8.ofNat (0x80 + n % 64)]
  else if n < 0x10000 then
    [UInt8.ofNat (0xE0 + n / 4096), UInt8.ofNat (0x80 + n / 64 % 64),
      UInt8.ofNat (0x80 + n % 64)]
  else
    [UInt8.ofNat (0xF0 + n / 262144), UInt8.ofNat (0x80 + n / 4096 % 64),
      UInt8.ofNat (0x80 + n / 64 % 64), UInt8.ofNat (0x80 + n % 64)]

/-- The bytes of a list of characters. -/
def encodeChars (cs : List Char) : Bytes := cs.flatMap encodeChar

/-- The bytes of a text. -/
def encode (text : String) : Bytes := encodeChars text.toList

/-! ### Reading -/

/-- One piece of a byte string: a character, or a defect. The length of a defect is `none` where
the input ends inside a sequence. -/
inductive Piece
  | char (c : Char)
  | defect (length : Option Nat)
  deriving DecidableEq, Repr

/-- The bytes that continue a sequence: how many are owed, the range of the next one, the code
point read so far and the number of bytes it took. Answers the piece and the bytes behind it. -/
def continuation : (owed low high point taken : Nat) → Bytes → Piece × Bytes
  | 0, _, _, point, _, rest => (.char (Char.ofNat point), rest)
  | _ + 1, _, _, _, _, [] => (.defect none, [])
  | owed + 1, low, high, point, taken, b :: rest =>
    if low ≤ b.toNat ∧ b.toNat ≤ high then
      continuation owed 0x80 0xBF (point * 64 + b.toNat % 64) (taken + 1) rest
    else (.defect (some taken), b :: rest)

/-- The piece that starts with the byte `b`, and the bytes behind it. -/
def front (b : UInt8) (rest : Bytes) : Piece × Bytes :=
  let n := b.toNat
  if n < 0x80 then (.char (Char.ofNat n), rest)
  else if n < 0xC2 then (.defect (some 1), rest)
  else if n < 0xE0 then continuation 1 0x80 0xBF (n % 32) 1 rest
  else if n = 0xE0 then continuation 2 0xA0 0xBF (n % 16) 1 rest
  else if n = 0xED then continuation 2 0x80 0x9F (n % 16) 1 rest
  else if n < 0xF0 then continuation 2 0x80 0xBF (n % 16) 1 rest
  else if n = 0xF0 then continuation 3 0x90 0xBF (n % 8) 1 rest
  else if n < 0xF4 then continuation 3 0x80 0xBF (n % 8) 1 rest
  else if n = 0xF4 then continuation 3 0x80 0x8F (n % 8) 1 rest
  else (.defect (some 1), rest)

/-- At most `bound` pieces of a byte string. -/
def piecesUpTo : (bound : Nat) → Bytes → List Piece
  | 0, _ => []
  | _, [] => []
  | bound + 1, b :: rest => (front b rest).1 :: piecesUpTo bound (front b rest).2

/-- The pieces of a byte string. Each takes at least one byte, so there are no more of them than
bytes. -/
def pieces (bytes : Bytes) : List Piece := piecesUpTo bytes.length bytes

/-- The first defect of a byte string: the index at which it starts and its length. -/
structure Defect where
  index : Nat
  length : Option Nat
  deriving DecidableEq, Repr

/-- What is wrong with the byte string, in words. -/
def Defect.message (defect : Defect) : String :=
  match defect.length with
  | some length =>
    "invalid utf-8 sequence of " ++ toString length ++ " bytes from index " ++
      toString defect.index
  | none => "incomplete utf-8 byte sequence from index " ++ toString defect.index

/-- The characters of a list of pieces that starts at `index`, if none is a defect. -/
def characters : (index : Nat) → List Piece → Except Defect (List Char)
  | _, [] => .ok []
  | index, .char c :: rest =>
    match characters (index + (encodeChar c).length) rest with
    | .ok cs => .ok (c :: cs)
    | .error defect => .error defect
  | index, .defect length :: _ => .error ⟨index, length⟩

/-- The text that a byte string encodes. -/
def decode (bytes : Bytes) : Except Defect String :=
  (characters 0 (pieces bytes)).map String.ofList

/-- The characters of a byte string, with `none` in the place of each defect. -/
def decodePartial (bytes : Bytes) : List (Option Char) :=
  (pieces bytes).map fun
    | .char c => some c
    | .defect _ => none

end WasmMeter.Utf8
