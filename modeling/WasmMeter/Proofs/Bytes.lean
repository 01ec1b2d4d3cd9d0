import Mathlib.Algebra.Group.Nat.Defs
import WasmMeter.Bytes

/-!
# Numbers in bytes

A number is kept in bytes up to what they have no room for: the bytes of a number stand for the rest
of its division by a power of 256 (`Bytes.ofNat_eq_iff`).
-/

set_option autoImplicit false

namespace WasmMeter.Bytes

/-- The bytes of a number, as many as the content has, are the content if the number agrees with it
up to what is cut off. -/
theorem ofNat_eq_iff (content : Bytes) (n : Nat) :
    ofNat content.length n = content ↔ n % 256 ^ content.length = littleEndian content := by
  induction content generalizing n with
  | nil => simp [ofNat, littleEndian, Nat.mod_one]
  | cons b later ih =>
    rw [List.length_cons, ofNat, littleEndian, List.cons.injEq, ih, Nat.pow_succ',
      Nat.mod_mul, ← UInt8.toNat_inj, UInt8.toNat_ofNat']
    have hlow := Nat.mod_lt n (y := 256) (by decide)
    have hb := b.toNat_lt
    omega

theorem littleEndian_lt (content : Bytes) : littleEndian content < 256 ^ content.length := by
  induction content with
  | nil => exact Nat.one_pos
  | cons b later ih =>
    rw [List.length_cons, littleEndian, Nat.pow_succ']
    have hb := b.toNat_lt
    omega

end WasmMeter.Bytes
