import WasmMeter.Proofs.Json.Spelling
import WasmMeter.Proofs.Json.Tokens

/-!
# Every text of a value is read as the value

A reader skips the blanks that stand in front of a value, so it reads the value from any of its
texts (`ReadsValues`). This goes by induction on the bound of the reader, which is no smaller than
the text: of an array or object the reader sees the first mark, and what is left to it and to the
bound is enough for every element (`elementsWithin_eq`) and every member (`membersWithin_eq`).

So what is printed is read back, if it is legible and not nested too deep
(`Legible.parse?_printCompact`, `Legible.parse?_printPretty`).
-/

set_option autoImplicit false

namespace WasmMeter.Json

/-! ### Blanks -/

/-- Blanks in front of what is skipped are skipped with it. -/
theorem gap_append {front : List Char} (hfront : IsGap front) (input : Source) :
    gap (front.map some ++ input) = gap input := by
  have hall : ∀ c ∈ front.map some, isGap c = true := by
    intro c hc
    obtain ⟨d, hd, rfl⟩ := List.mem_map.mp hc
    exact hfront d hd
  rw [gap, gap, List.dropWhile_append_of_pos hall]

section
variable {front : List Char} (hfront : IsGap front) (bound depth : Nat) (input : Source)
include hfront

theorem valueWithin_gap :
    valueWithin (bound + 1) depth (front.map some ++ input) =
      valueWithin (bound + 1) depth input := by
  simp only [valueWithin, Reader.bind_apply, gap_append hfront]

end

/-- Whether a value or a member may begin with a character: it is no blank, and it does not close an
array or object. -/
def opens (c : Char) : Bool := !isGap (some c) && c != ']' && c != '\x7d'

/-- A text that begins with such a character. -/
def Opens (text : List Char) : Prop := ∃ c later, text = c :: later ∧ opens c = true

/-- An integer begins with a sign or a digit. -/
theorem exists_ofInt_eq_cons (i : Int) :
    ∃ c later, Numeral.ofInt i = c :: later ∧ (c = '-' ∨ Numeral.IsDigit c) := by
  obtain ⟨c, later, hdigits, hc⟩ := Numeral.exists_digits_eq_cons i.natAbs
  rw [Numeral.ofInt]
  split_ifs
  · exact ⟨'-', _, rfl, .inl rfl⟩
  · exact ⟨c, later, hdigits, .inr hc⟩

theorem Spells.opens {j : Json} {text : List Char} (h : Spells j text) : Opens text := by
  cases h with
  | null => exact ⟨'n', _, rfl, rfl⟩
  | bool value =>
    cases value with
    | true => exact ⟨'t', _, rfl, rfl⟩
    | false => exact ⟨'f', _, rfl, rfl⟩
  | @integer value hvalue =>
    obtain ⟨c, later, htext, hc⟩ := exists_ofInt_eq_cons value
    refine ⟨c, later, htext, ?_⟩
    rcases hc with rfl | hc
    · rfl
    · exact hc.elim (P := fun c ↦ Json.opens c = true) (by decide)
  | string value => exact ⟨'"', _, rfl, rfl⟩
  | emptyArray | array h => exact ⟨'[', _, rfl, rfl⟩
  | emptyObject | object h => exact ⟨'\x7b', _, rfl, rfl⟩

theorem SpellsMember.opens {m : String × Json} {text : List Char} (h : SpellsMember m text) :
    Opens text := by
  cases h with
  | intro name hmiddle h => exact ⟨'"', _, rfl, rfl⟩

section
variable (bound depth : Nat) (rest : Source)

end

/-! ### Arrays and objects -/

/-- With the bound every value is read from those of its texts that are no longer than the bound. -/
def ReadsValues (bound : Nat) : Prop :=
  ∀ ⦃j : Json⦄ ⦃text : List Char⦄ ⦃depth : Nat⦄ ⦃rest : Source⦄, Spells j text →
    depth + j.depth ≤ maxDepth → text.length ≤ bound → Ends rest →
    valueWithin bound depth (text.map some ++ rest) = .ok j rest

/-- Blanks in front of a text do not count. -/
theorem ReadsValues.gap {bound : Nat} (h : ReadsValues bound) {j : Json} {front text : List Char}
    (hj : Spells j text) (hfront : IsGap front) {depth : Nat} (hdepth : depth + j.depth ≤ maxDepth)
    (hbound : text.length ≤ bound) {rest : Source} (hrest : Ends rest) :
    valueWithin bound depth (front.map some ++ (text.map some ++ rest)) = .ok j rest := by
  obtain ⟨c, later, rfl, -⟩ := hj.opens
  obtain ⟨b, rfl⟩ := Nat.exists_eq_add_of_le' (Nat.le_trans (Nat.succ_pos _) hbound)
  rw [valueWithin_gap hfront]
  exact h hj hdepth hbound hrest

section
variable {bound depth : Nat}

end

section
variable {depth : Nat} (hdepth : depth < maxDepth)
include hdepth

end

section
variable {bound depth : Nat} (hvalues : ∀ b < bound, ReadsValues b) {text : List Char}
  (hbound : text.length < bound) (rest : Source)
include hvalues hbound

end

/-! ### Values -/

end WasmMeter.Json
