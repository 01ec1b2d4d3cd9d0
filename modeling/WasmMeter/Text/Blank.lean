/-!
# Blanks and words

The words of a text are its maximal runs of characters that are not blank. The blanks are the
twenty-five characters of the Unicode property `White_Space`; `words_flatten` says that cutting a
text into words loses blanks and nothing else, and `not_isBlank_of_mem_words` that no word holds
one.
-/

set_option autoImplicit false

namespace WasmMeter.Text

/-- The property `White_Space`, as ranges of code points. -/
def blankRanges : List (Nat × Nat) :=
  [(0x0009, 0x000D), (0x0020, 0x0020), (0x0085, 0x0085), (0x00A0, 0x00A0), (0x1680, 0x1680),
    (0x2000, 0x200A), (0x2028, 0x2029), (0x202F, 0x202F), (0x205F, 0x205F), (0x3000, 0x3000)]

/-- Whether a character separates words. -/
def isBlank (c : Char) : Bool :=
  blankRanges.any fun (first, last) ↦ first ≤ c.toNat && c.toNat ≤ last

/-- Puts a character in front of the first word. -/
def extendFirst (c : Char) : List (List Char) → List (List Char)
  | [] => [[c]]
  | word :: later => (c :: word) :: later

/-- The maximal runs of characters that are not blank, in order. -/
def words : List Char → List (List Char)
  | [] => []
  | c :: rest =>
    if isBlank c then words rest
    else if rest.head?.any isBlank then [c] :: words rest
    else extendFirst c (words rest)

@[simp]
theorem flatten_extendFirst (c : Char) (ws : List (List Char)) :
    (extendFirst c ws).flatten = c :: ws.flatten := by
  cases ws <;> rfl

theorem words_flatten (text : List Char) :
    (words text).flatten = text.filter fun c ↦ !isBlank c := by
  induction text with
  | nil => rfl
  | cons c rest ih =>
    rw [words]
    split
    · next hblank => simp [hblank, ih]
    · next hblank =>
      rw [List.filter_cons_of_pos (by simpa using hblank), ← ih]
      split <;> simp

theorem not_isBlank_of_mem_words {text word : List Char} {c : Char} (hword : word ∈ words text)
    (hc : c ∈ word) : isBlank c = false := by
  have hmem : c ∈ (words text).flatten := List.mem_flatten.mpr ⟨word, hword, hc⟩
  rw [words_flatten] at hmem
  simpa using (List.mem_filter.mp hmem).2

end WasmMeter.Text
