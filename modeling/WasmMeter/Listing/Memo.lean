import Std.Data.HashMap
import WasmMeter.Listing

/-!
# Remembered listings

A memo keeps the instructions of every listing that has been read with it, so that a text is read
once. Texts that are no listings are not kept.
-/

set_option autoImplicit false

namespace WasmMeter

/-- The listings read so far, by their text. -/
structure Memo where
  known : Std.HashMap String (List Instruction)

namespace Memo

/-- The memo of no listing. -/
def empty : Memo := ⟨∅⟩

/-- The number of texts that a memo keeps. -/
def size (memo : Memo) : Nat := memo.known.size

/-- The memo with all listings forgotten. -/
def clear (memo : Memo) : Memo := { memo with known := ∅ }

/-- The instructions of a text, from the memo if it has them. -/
def parse (text : String) : EStateM ListingError Memo (List Instruction) := fun memo ↦
  match memo.known[text]? with
  | some code => .ok code memo
  | none =>
    match Listing.parse text with
    | .ok code => .ok code ⟨memo.known.insert text code⟩
    | .error e => .error e memo

end Memo

end WasmMeter
