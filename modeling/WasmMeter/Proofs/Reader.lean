import Mathlib.Data.List.Basic
import Mathlib.Order.Nat
import WasmMeter.Reader

/-!
# What readers answer

A reader that goes on with another one answers if both do (`Reader.bind_eq_ok_iff`), and a number of
tokens is taken where there are as many (`Reader.exactly_eq_ok_iff`). Reading up to the end of the
input is reading one element and then going on with what it leaves
(`Reader.Advances.untilEnd_eq_bind`): how many turns are allowed does not matter, as long as every
element takes a token.
-/

set_option autoImplicit false

namespace WasmMeter.Reader

variable {τ ε α β : Type}

/-! ### Answers -/

theorem bind_eq_ok_iff {p : Reader τ ε α} {f : α → Reader τ ε β} {input rest : List τ} {b : β} :
    (p >>= f) input = .ok b rest ↔ ∃ a mid, p input = .ok a mid ∧ f a mid = .ok b rest := by
  rw [bind_apply]
  cases p input <;> simp

theorem map_eq_ok_iff {p : Reader τ ε α} {f : α → β} {input rest : List τ} {b : β} :
    (f <$> p) input = .ok b rest ↔ ∃ a, p input = .ok a rest ∧ f a = b := by
  rw [← bind_pure_comp, bind_eq_ok_iff]
  simp only [pure_apply, EStateM.Result.ok.injEq]
  constructor
  · rintro ⟨a, mid, ha, rfl, rfl⟩
    exact ⟨a, ha, rfl⟩
  · rintro ⟨a, ha, rfl⟩
    exact ⟨a, rest, ha, rfl, rfl⟩

theorem next_eq_ok_iff {missing : ε} {input rest : List τ} {t : τ} :
    next missing input = .ok t rest ↔ t :: rest = input := by
  cases input <;> simp [next, eq_comm]

theorem exactly_eq_ok_iff {missing : ε} {count : Nat} {input taken rest : List τ} :
    exactly count missing input = .ok taken rest ↔
      taken.length = count ∧ taken ++ rest = input := by
  constructor
  · intro h
    simp only [exactly, List.splitAt_eq] at h
    split_ifs at h with hlength
    cases h
    exact ⟨hlength, List.take_append_drop count input⟩
  · rintro ⟨rfl, rfl⟩
    exact exactly_append taken rest missing

/-- Where there are not enough tokens, none is taken. -/
theorem eq_of_exactly_eq_error {missing e : ε} {count : Nat} {input rest : List τ}
    (h : exactly count missing input = .error e rest) : e = missing ∧ rest = input := by
  simp only [exactly, List.splitAt_eq] at h
  split_ifs at h
  cases h
  exact ⟨rfl, rfl⟩

theorem require_eq_ok_iff {e : ε} {found : Option α} {input rest : List τ} {a : α} :
    (require e found : Reader τ ε α) input = .ok a rest ↔ found = some a ∧ input = rest := by
  cases found <;> simp [require, pure_apply, fail]

theorem value_eq_ok_iff {result : EStateM.Result ε (List τ) α} {a : α} :
    value result = .ok a ↔ ∃ rest, result = .ok a rest := by
  cases result <;> simp [value]

theorem value_bind_of_eq_ok {p : Reader τ ε α} {f : α → Reader τ ε β} {input left : List τ} {a : α}
    (h : p input = .ok a left) : value ((p >>= f) input) = value (f a left) := by
  rw [bind_apply, h]

@[simp]
theorem value_map (f : α → β) (p : Reader τ ε α) (input : List τ) :
    value ((f <$> p) input) = (value (p input)).map f := by
  rw [map_apply]
  cases p input <;> rfl

@[simp]
theorem rest_map (f : α → β) (p : Reader τ ε α) (input : List τ) :
    rest ((f <$> p) input) = rest (p input) := by
  rw [map_apply]
  cases p input <;> rfl

@[simp]
theorem value_mapError {ε' : Type} (f : ε → ε') (p : Reader τ ε α) (input : List τ) :
    value (p.mapError f input) = (value (p input)).mapError f := by
  unfold mapError
  cases p input <;> rfl

@[simp]
theorem rest_mapError {ε' : Type} (f : ε → ε') (p : Reader τ ε α) (input : List τ) :
    rest (p.mapError f input) = rest (p input) := by
  unfold mapError
  cases p input <;> rfl

theorem value_bind_pure (p : Reader τ ε α) (f : α → β) (input : List τ) :
    value ((p >>= fun a ↦ pure (f a)) input) = (value (p input)).map f := by
  rw [bind_apply]
  cases p input <;> rfl

/-! ### Reading up to the end -/

/-- A reader that takes a token at least whenever it succeeds. -/
def Advances (p : Reader τ ε α) : Prop :=
  ∀ input a left, p input = .ok a left → left.length < input.length

theorem Advances.bind {p : Reader τ ε α} {f : α → Reader τ ε β} (hp : p.Advances)
    (hf : ∀ a input b left, f a input = .ok b left → left.length ≤ input.length) :
    (p >>= f).Advances := by
  intro input b left h
  obtain ⟨a, mid, ha, hb⟩ := bind_eq_ok_iff.mp h
  exact (hf a mid b left hb).trans_lt (hp input a mid ha)

theorem Advances.map {p : Reader τ ε α} (hp : p.Advances) (f : α → β) : (f <$> p).Advances := by
  intro input b left h
  obtain ⟨a, ha, -⟩ := map_eq_ok_iff.mp h
  exact hp input a left ha

/-- Every turn of such a reader takes a token. -/
theorem Advances.length_le_of_times {p : Reader τ ε α} (hp : p.Advances) {count : Nat}
    {input left : List τ} {list : List α} (h : times p count input = .ok list left) :
    count + left.length ≤ input.length := by
  induction count generalizing input list with
  | zero =>
    cases h
    rw [Nat.zero_add]
  | succ count ih =>
    obtain ⟨first, mid, hfirst, hrest⟩ := bind_eq_ok_iff.mp h
    obtain ⟨later, _, hlater, ⟨⟩⟩ := bind_eq_ok_iff.mp hrest
    have hturn := hp input first mid hfirst
    have hturns := ih hlater
    omega

/-- One turn of a reader that is not at the end yet. -/
theorem upTo_succ_cons (p : Reader τ ε α) (bound : Nat) (t : τ) (later : List τ) :
    upTo p (bound + 1) (t :: later) =
      (do
        let first ← p
        let others ← upTo p bound
        pure (first :: others) : Reader τ ε (List α)) (t :: later) := by
  rw [upTo, bind_apply]
  rfl

/-- If every turn takes a token, then more turns than there are tokens change nothing. -/
theorem Advances.upTo_eq_untilEnd {p : Reader τ ε α} (hp : p.Advances) {bound : Nat}
    {input : List τ} (hbound : input.length ≤ bound) : upTo p bound input = untilEnd p input := by
  induction bound using Nat.strong_induction_on generalizing input with
  | h bound ih =>
    cases input with
    | nil => cases bound <;> rfl
    | cons t later =>
      obtain ⟨bound, rfl⟩ : ∃ smaller, bound = smaller + 1 :=
        Nat.exists_eq_add_of_le' (Nat.one_le_of_lt hbound)
      rw [List.length_cons, Nat.succ_le_succ_iff] at hbound
      rw [untilEnd, List.length_cons, upTo_succ_cons, upTo_succ_cons, bind_apply, bind_apply]
      cases hfirst : p (t :: later) with
      | error e left => rfl
      | ok a left =>
        have hleft : left.length ≤ later.length :=
          Nat.le_of_lt_succ (hp (t :: later) a left hfirst)
        have hmany := ih bound (Nat.lt_succ_self bound) (hleft.trans hbound)
        have hfew := ih later.length (Nat.lt_succ_of_le hbound) hleft
        simp only
        rw [bind_apply, bind_apply, hmany, hfew]

/-- Reading up to the end, without a bound on the turns. -/
theorem Advances.untilEnd_eq_bind {p : Reader τ ε α} (hp : p.Advances) {input : List τ}
    (hinput : input ≠ []) :
    untilEnd p input =
      (do
        let first ← p
        let others ← untilEnd p
        pure (first :: others) : Reader τ ε (List α)) input := by
  obtain ⟨t, later, rfl⟩ := List.exists_cons_of_ne_nil hinput
  rw [untilEnd, List.length_cons, upTo_succ_cons, bind_apply, bind_apply]
  cases hfirst : p (t :: later) with
  | error e left => rfl
  | ok a left =>
    have hleft : left.length ≤ later.length := Nat.le_of_lt_succ (hp (t :: later) a left hfirst)
    simp only
    rw [bind_apply, bind_apply, hp.upTo_eq_untilEnd hleft]

end WasmMeter.Reader
