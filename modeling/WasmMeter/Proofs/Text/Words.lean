import Mathlib.Data.List.TakeWhile
import WasmMeter.Text.Blank

/-!
# Words of a text

`Text.Runs` says which words a text has without a way to find them: each one stands between blanks
or the ends of the text. A word is cut off in front of a blank (`Text.words_append`), so a text has
exactly the words into which it is cut (`Text.runs_iff`).
-/

set_option autoImplicit false

namespace WasmMeter.Text

/-- The words are the maximal runs of characters of the text that are not blank, in order: in front
of each one there are only blanks, and behind it comes a blank or the end. -/
inductive Runs : List Char → List (List Char) → Prop
  | blank {gap : List Char} (hgap : ∀ c ∈ gap, isBlank c = true) : Runs gap []
  | word {gap word rest : List Char} {later : List (List Char)}
      (hgap : ∀ c ∈ gap, isBlank c = true) (hword : ∀ c ∈ word, isBlank c = false)
      (hne : word ≠ []) (hend : ∀ c ∈ rest.head?, isBlank c = true) (hlater : Runs rest later) :
      Runs (gap ++ (word ++ rest)) (word :: later)

theorem not_isBlank_of_any_eq_false {word : List Char} (h : word.any isBlank = false) :
    ∀ c ∈ word, isBlank c = false :=
  fun c hc ↦ Bool.eq_false_iff.mpr (List.any_eq_false.mp h c hc)

/-- A word in a row of its own, in front of the rest of a text. -/
theorem words_append {word rest : List Char} (hblank : ∀ c ∈ word, isBlank c = false)
    (hne : word ≠ []) (hrest : ∀ c ∈ rest.head?, isBlank c = true) :
    words (word ++ rest) = word :: words rest := by
  induction word with
  | nil => exact absurd rfl hne
  | cons c later ih =>
    have hc : isBlank c = false := hblank c List.mem_cons_self
    rw [List.cons_append, words, if_neg (by rw [hc]; decide)]
    cases later with
    | nil =>
      cases rest with
      | nil => rfl
      | cons d behind =>
        have hd : isBlank d = true := hrest d rfl
        rw [List.nil_append, List.head?_cons, Option.any_some, if_pos hd]
    | cons d behind =>
      have hd : isBlank d = false := hblank d (by simp)
      rw [List.cons_append, List.head?_cons, Option.any_some, if_neg (by rw [hd]; decide),
        ← List.cons_append, ih (fun e he ↦ hblank e (List.mem_cons_of_mem c he)) (by simp)]
      rfl

/-- A word ends at a blank. -/
theorem words_append_space {word rest : List Char} (hblank : ∀ c ∈ word, isBlank c = false)
    (hne : word ≠ []) : words (word ++ ' ' :: rest) = word :: words rest := by
  rw [words_append hblank hne (by rintro c ⟨⟩; decide)]
  rfl

theorem words_of_not_isBlank {word : List Char} (hblank : ∀ c ∈ word, isBlank c = false)
    (hne : word ≠ []) : words word = [word] := by
  have hword : words (word ++ []) = word :: words [] := words_append hblank hne (by rintro c ⟨⟩)
  rwa [List.append_nil] at hword

/-- Blanks in front of a text change nothing. -/
theorem words_append_of_isBlank {gap rest : List Char} (hgap : ∀ c ∈ gap, isBlank c = true) :
    words (gap ++ rest) = words rest := by
  induction gap with
  | nil => rfl
  | cons c later ih =>
    rw [List.cons_append, words, if_pos (hgap c List.mem_cons_self),
      ih fun d hd ↦ hgap d (List.mem_cons_of_mem c hd)]

theorem Runs.words_eq {text : List Char} {ws : List (List Char)} (h : Runs text ws) :
    words text = ws := by
  induction h with
  | @blank gap hgap =>
    have hwords : words (gap ++ []) = words [] := words_append_of_isBlank hgap
    rwa [List.append_nil] at hwords
  | word hgap hword hne hend _ ih =>
    rw [words_append_of_isBlank hgap, words_append hword hne hend, ih]

/-- A text is cut in front of the first character without a property. -/
theorem exists_cut (p : Char → Bool) (text : List Char) :
    ∃ front back, (∀ c ∈ front, p c = true) ∧ (∀ c ∈ back.head?, p c = false) ∧
      front ++ back = text := by
  refine ⟨text.takeWhile p, text.dropWhile p, fun c ↦ List.mem_takeWhile_imp, ?_,
    List.takeWhile_append_dropWhile⟩
  intro c hc
  have hstop := List.head?_dropWhile_not p text
  rw [show (text.dropWhile p).head? = some c from hc] at hstop
  simpa using hstop

/-- Every text is made of words and gaps: the first gap and the first word are cut off. -/
theorem exists_runs (text : List Char) : ∃ ws, Runs text ws := by
  induction hlength : text.length using Nat.strong_induction_on generalizing text with
  | h length ih =>
    subst hlength
    obtain ⟨gap, body, hgap, hbody, rfl⟩ := exists_cut isBlank text
    cases body with
    | nil => exact ⟨[], by rw [List.append_nil]; exact .blank hgap⟩
    | cons c behind =>
      obtain ⟨word, rest, hword, hend, hcut⟩ := exists_cut (fun c ↦ !isBlank c) (c :: behind)
      simp only [Bool.not_eq_true', Bool.not_eq_false'] at hword hend
      have hne : word ≠ [] := by
        rintro rfl
        have hblank : isBlank c = true := hend c (by rw [← List.nil_append rest, hcut]; rfl)
        rw [hbody c rfl] at hblank
        cases hblank
      have hpos := List.length_pos_iff.mpr hne
      obtain ⟨later, hlater⟩ := ih rest.length (by simp only [← hcut, List.length_append]; omega)
        rest rfl
      exact ⟨word :: later, hcut ▸ .word hgap hword hne hend hlater⟩

/-- A text has the words into which it is cut, and no others. -/
theorem runs_iff {text : List Char} {ws : List (List Char)} : Runs text ws ↔ words text = ws := by
  refine ⟨Runs.words_eq, ?_⟩
  rintro rfl
  obtain ⟨ws, hruns⟩ := exists_runs text
  rwa [hruns.words_eq]

end WasmMeter.Text
