import Mathlib.Computability.Language

/-!
# Shortest words

A word of a language is its shortest one if every other word is longer (`IsShortest`), so there is
at most one. The shortest word of a product of languages is made of the shortest words of its
factors (`IsShortest.mul`).
-/

set_option autoImplicit false

namespace WasmMeter

variable {σ : Type} {L M : Language σ} {v w : List σ}

/-- A word of a language that is shorter than every other one. -/
structure IsShortest (L : Language σ) (w : List σ) : Prop where
  mem : w ∈ L
  lt_of_ne : ∀ v ∈ L, v ≠ w → w.length < v.length

namespace IsShortest

theorem length_le (hw : IsShortest L w) (hv : v ∈ L) : w.length ≤ v.length := by
  by_cases heq : v = w
  · rw [heq]
  · exact (hw.lt_of_ne v hv heq).le

/-- No other word is as short. -/
theorem eq_of_length_le (hw : IsShortest L w) (hv : v ∈ L) (hlength : v.length ≤ w.length) :
    v = w := by
  by_contra hne
  exact absurd (hw.lt_of_ne v hv hne) (Nat.not_lt.mpr hlength)

theorem one : IsShortest (1 : Language σ) [] where
  mem := Language.nil_mem_one
  lt_of_ne := fun v hv hne ↦ absurd ((Language.mem_one v).mp hv) hne

theorem singleton (w : List σ) : IsShortest ({w} : Language σ) w where
  mem := Set.mem_singleton w
  lt_of_ne := fun _ hv hne ↦ absurd (Set.mem_singleton_iff.mp hv) hne

/-- A word of shortest parts is shortest. -/
theorem mul {x y : List σ} (hx : IsShortest L x) (hy : IsShortest M y) :
    IsShortest (L * M) (x ++ y) where
  mem := Language.append_mem_mul hx.mem hy.mem
  lt_of_ne := by
    intro v hv hne
    obtain ⟨a, ha, b, hb, rfl⟩ := Language.mem_mul.mp hv
    have hxa := hx.length_le ha
    have hyb := hy.length_le hb
    by_contra hshort
    simp only [List.length_append] at hshort
    have hleft : a = x := hx.eq_of_length_le ha (by omega)
    have hright : b = y := hy.eq_of_length_le hb (by omega)
    exact hne (by rw [hleft, hright])

end IsShortest

end WasmMeter
