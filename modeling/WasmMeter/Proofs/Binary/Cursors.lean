import WasmMeter.Binary.ReadScript
import WasmMeter.Proofs.Reader

/-!
# Positions of cursors

A cursor stands in its buffer (`Cursor.InBuffer`), and a reader moves it behind the row of bytes
that it takes (`Cursor.read_eq`). A reader of numbers takes a row with which alone it comes to the
same result, whatever is behind it (`Leb128.takesRows_scan`).

Positions are natural numbers here. In words of sixty-four bits the position behind the next bytes
is a sum that may wrap around. It is found to be past the end then, so that the words say the same
(`Cursor.InBuffer.end?_eq`).
-/

set_option autoImplicit false

namespace WasmMeter

variable {τ ε α β : Type}

/-! ### Rows of a reader -/

namespace Reader

/-- With the row alone the reader comes to the result, and it leaves nothing. -/
def UsesUp (p : Reader τ ε α) (row : List τ) (result : Except ε α) : Prop :=
  value (p row) = result ∧ rest (p row) = []

/-- Of every input the reader takes a row in front, with which alone it comes to the same result. A
failure that is `short` is met at the end of the input only. -/
def TakesRows (short : ε → Prop) (p : Reader τ ε α) : Prop :=
  ∀ input, ∃ row, row ++ rest (p input) = input ∧ p.UsesUp row (value (p input)) ∧
    ∀ e, value (p input) = .error e → short e → rest (p input) = []

theorem TakesRows.map {short : ε → Prop} {p : Reader τ ε α} (hp : p.TakesRows short) (f : α → β) :
    (f <$> p).TakesRows short := by
  intro input
  obtain ⟨row, hrow, ⟨hvalue, hrest⟩, hshort⟩ := hp input
  refine ⟨row, by rw [rest_map, hrow], ⟨?_, by rw [rest_map, hrest]⟩, fun e he ↦ ?_⟩
  · rw [value_map, value_map, hvalue]
  · rw [value_map] at he
    rw [rest_map]
    cases hresult : value (p input) with
    | ok a => rw [hresult] at he; cases he
    | error e' => rw [hresult] at he; cases he; exact hshort e hresult

theorem TakesRows.mapError {ε' : Type} {short : ε → Prop} {short' : ε' → Prop} {f : ε → ε'}
    {p : Reader τ ε α} (hp : p.TakesRows short) (hf : ∀ e, short' (f e) → short e) :
    (p.mapError f).TakesRows short' := by
  intro input
  obtain ⟨row, hrow, ⟨hvalue, hrest⟩, hshort⟩ := hp input
  refine ⟨row, by rw [rest_mapError, hrow], ⟨?_, by rw [rest_mapError, hrest]⟩,
    fun e he hshort' ↦ ?_⟩
  · rw [value_mapError, value_mapError, hvalue]
  · rw [value_mapError] at he
    rw [rest_mapError]
    cases hresult : value (p input) with
    | ok a => rw [hresult] at he; cases he
    | error e' => rw [hresult] at he; cases he; exact hshort e' hresult (hf e' hshort')

end Reader

/-- A number is read from the bytes up to the one at which reading stops. -/
theorem Leb128.takesRows_scan (bits : Nat) (step : (shift value : Nat) → UInt8 → Step α)
    (shift start : Nat) : (scan bits step shift start).TakesRows (· = .unexpectedEnd) := by
  intro input
  induction input generalizing shift start with
  | nil => exact ⟨[], rfl, ⟨rfl, rfl⟩, fun _ _ _ ↦ rfl⟩
  | cons b later ih =>
    rw [scan]
    cases hstep : step shift start b with
    | more next =>
      obtain ⟨row, hrow, halone, hshort⟩ := ih (shift + 7) next
      refine ⟨b :: row, congrArg (b :: ·) hrow, ?_, hshort⟩
      rw [Reader.UsesUp, scan, hstep]
      exact halone
    | done answer =>
      refine ⟨[b], rfl, ?_, nofun⟩
      rw [Reader.UsesUp, scan, hstep]
      exact ⟨rfl, rfl⟩
    | outOfRange =>
      refine ⟨[b], rfl, ?_, ?_⟩
      · rw [Reader.UsesUp, scan, hstep]
        exact ⟨rfl, rfl⟩
      · rintro e ⟨⟩ ⟨⟩

/-! ### Positions -/

namespace Cursor

variable {cursor : Cursor}

/-- The position is one of the buffer, or the one behind its last byte. -/
def InBuffer (cursor : Cursor) : Prop := cursor.position ≤ cursor.buffer.length

/-- The position behind a number of bytes. -/
def advance (cursor : Cursor) (count : Nat) : Cursor :=
  { cursor with position := cursor.position + count }

@[simp]
theorem advance_advance (cursor : Cursor) (first later : Nat) :
    (cursor.advance first).advance later = cursor.advance (first + later) := by
  simp [advance, Nat.add_assoc]

theorem inBuffer_start (buffer : Bytes) : (start buffer).InBuffer := Nat.zero_le _

theorem length_rest (cursor : Cursor) : cursor.rest.length = cursor.remaining := List.length_drop

theorem rest_advance {row behind : Bytes} (h : row ++ behind = cursor.rest) :
    (cursor.advance row.length).rest = behind := by
  rw [rest, advance, ← List.drop_drop, ← rest, ← h, List.drop_left]

theorem InBuffer.position_add_remaining (h : cursor.InBuffer) :
    cursor.position + cursor.remaining = cursor.buffer.length := Nat.add_sub_of_le h

/-- A row of what is left does not lead out of the buffer. -/
theorem InBuffer.advance (hcursor : cursor.InBuffer) {row : Bytes} (hrow : row <+: cursor.rest) :
    (cursor.advance row.length).InBuffer := by
  have hlength := hrow.length_le
  rw [length_rest, remaining] at hlength
  unfold InBuffer at hcursor
  show cursor.position + row.length ≤ cursor.buffer.length
  omega

/-- The position moves behind the row that the reader takes. -/
theorem read_eq (hcursor : cursor.InBuffer) {p : Reader UInt8 ε α} {row : Bytes}
    (hrow : row ++ Reader.rest (p cursor.rest) = cursor.rest) :
    cursor.read p = (Reader.value (p cursor.rest), cursor.advance row.length) := by
  have hlength := congrArg List.length hrow
  rw [List.length_append, length_rest] at hlength
  have hposition : cursor.buffer.length - (Reader.rest (p cursor.rest)).length =
      cursor.position + row.length := by
    have := hcursor.position_add_remaining
    omega
  rw [read, hposition]
  rfl

theorem read_of_eq_ok (hcursor : cursor.InBuffer) {p : Reader UInt8 ε α} {row behind : Bytes}
    {a : α} (hrest : cursor.rest = row ++ behind) (h : p (row ++ behind) = .ok a behind) :
    cursor.read p = (.ok a, cursor.advance row.length) := by
  rw [← hrest] at h
  have hrow : row ++ Reader.rest (p cursor.rest) = cursor.rest := by rw [h, hrest]; rfl
  rw [read_eq hcursor hrow, h]
  rfl

theorem read_of_eq_error (hcursor : cursor.InBuffer) {p : Reader UInt8 ε α} {row behind : Bytes}
    {e : ε} (hrest : cursor.rest = row ++ behind) (h : p (row ++ behind) = .error e behind) :
    cursor.read p = (.error e, cursor.advance row.length) := by
  rw [← hrest] at h
  have hrow : row ++ Reader.rest (p cursor.rest) = cursor.rest := by rw [h, hrest]; rfl
  rw [read_eq hcursor hrow, h]
  rfl

theorem read_fail (hcursor : cursor.InBuffer) (e : ε) :
    cursor.read (Reader.fail e : Reader UInt8 ε α) = (.error e, cursor) :=
  read_of_eq_error hcursor (List.nil_append _).symm rfl

/-! ### Words of sixty-four bits -/

/-- The sum of two words, if it is one: a sum that wraps around is less than its parts. -/
def checkedAdd? (a b : UInt64) : Option UInt64 := if a ≤ a + b then some (a + b) else none

theorem checkedAdd?_eq (a b : UInt64) :
    checkedAdd? a b =
      if a.toNat + b.toNat < UInt64.size then some (UInt64.ofNat (a.toNat + b.toNat))
      else none := by
  have ha := a.toNat_lt
  have hb := b.toNat_lt
  have hle : a ≤ a + b ↔ a.toNat + b.toNat < UInt64.size := by
    rw [UInt64.le_iff_toNat_le, UInt64.toNat_add, UInt64.size]
    omega
  unfold checkedAdd?
  simp only [hle]
  split
  · rw [UInt64.ofNat_add, UInt64.ofNat_toNat, UInt64.ofNat_toNat]
  · rfl

/-- The position behind the next bytes, computed in words, if it is one of the buffer. -/
def end? (cursor : Cursor) (count : UInt64) : Option UInt64 :=
  (checkedAdd? (UInt64.ofNat cursor.position) count).filter fun behind ↦
    behind.toNat ≤ cursor.buffer.length

/-- The byte at an offset from the position, which is computed in words. -/
def byteAt? (cursor : Cursor) (offset : UInt64) : Option UInt8 :=
  (checkedAdd? (UInt64.ofNat cursor.position) offset).bind fun index ↦
    cursor.buffer[index.toNat]?

theorem InBuffer.end?_eq (hcursor : cursor.InBuffer)
    (hbuffer : cursor.buffer.length < UInt64.size) (count : UInt64) :
    cursor.end? count =
      if count.toNat ≤ cursor.remaining then some (UInt64.ofNat (cursor.position + count.toNat))
      else none := by
  unfold InBuffer at hcursor
  have hposition : (UInt64.ofNat cursor.position).toNat = cursor.position :=
    UInt64.toNat_ofNat_of_lt' (lt_of_le_of_lt hcursor hbuffer)
  rw [end?, checkedAdd?_eq, hposition, remaining]
  by_cases hin : count.toNat ≤ cursor.buffer.length - cursor.position
  · have hsum : cursor.position + count.toNat < UInt64.size := by omega
    have hbehind : cursor.position + count.toNat ≤ cursor.buffer.length := by omega
    rw [if_pos hsum, if_pos hin, Option.filter_some, UInt64.toNat_ofNat_of_lt' hsum,
      if_pos (decide_eq_true hbehind)]
  · rw [if_neg hin]
    split
    · next hsum =>
      have hbehind : ¬cursor.position + count.toNat ≤ cursor.buffer.length := by omega
      rw [Option.filter_some, UInt64.toNat_ofNat_of_lt' hsum, if_neg (by simpa using hbehind)]
    · rfl

theorem InBuffer.byteAt?_eq (hcursor : cursor.InBuffer)
    (hbuffer : cursor.buffer.length < UInt64.size) (offset : UInt64) :
    cursor.byteAt? offset = cursor.buffer[cursor.position + offset.toNat]? := by
  unfold InBuffer at hcursor
  have hposition : (UInt64.ofNat cursor.position).toNat = cursor.position :=
    UInt64.toNat_ofNat_of_lt' (lt_of_le_of_lt hcursor hbuffer)
  rw [byteAt?, checkedAdd?_eq, hposition]
  split
  · next hsum => rw [Option.bind_some, UInt64.toNat_ofNat_of_lt' hsum]
  · next hsum =>
    rw [Option.bind_none, List.getElem?_eq_none (by omega)]

end Cursor

end WasmMeter
