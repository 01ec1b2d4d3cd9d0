import Mathlib.Tactic.ByContra
import WasmMeter.Gas.Metering

/-!
# The blocks of code

There is one way to cut code into blocks of which each ends with its first branching instruction, or
with the code (`IsSplit`), and `blocks` finds it (`isSplit_iff`). So a block can be split off the
front of code without a look at the rest (`blocks_append`).
-/

set_option autoImplicit false

namespace WasmMeter

/-- The code cut into blocks: each is not empty, only its last instruction may be a branching one,
and it has to be one unless the code ends there. -/
structure IsSplit (code : List Instruction) (bs : List (List Instruction)) : Prop where
  flatten : bs.flatten = code
  ne_nil : ∀ block ∈ bs, block ≠ []
  inner : ∀ block ∈ bs, ∀ instruction ∈ block.dropLast, instruction.isBranching = false
  last : ∀ block ∈ bs.dropLast, ∀ instruction ∈ block.getLast?, instruction.isBranching = true

/-- A block that ends with its first branching instruction, or with the code. -/
theorem blocks_append {block rest : List Instruction} (hne : block ≠ [])
    (hinner : ∀ instruction ∈ block.dropLast, instruction.isBranching = false)
    (hlast : rest ≠ [] → ∀ instruction ∈ block.getLast?, instruction.isBranching = true) :
    blocks (block ++ rest) = block :: blocks rest := by
  induction block with
  | nil => exact absurd rfl hne
  | cons instruction later ih =>
    rw [List.cons_append, blocks]
    cases later with
    | nil =>
      by_cases hbranching : instruction.isBranching = true
      · rw [if_pos hbranching, List.nil_append]
      · have hrest : rest = [] := by
          by_contra hrest
          exact hbranching (hlast hrest instruction rfl)
        rw [if_neg hbranching, hrest]
        rfl
    | cons next behind =>
      have hstays : instruction.isBranching = false := hinner instruction (by simp)
      have hlater : blocks (next :: behind ++ rest) = (next :: behind) :: blocks rest :=
        ih (by simp) (fun i hi ↦ hinner i (by simp [hi])) hlast
      rw [if_neg (by rw [hstays]; decide), hlater]
      rfl

/-- The blocks behind the first one. -/
theorem IsSplit.tail {code block : List Instruction} {later : List (List Instruction)}
    (h : IsSplit code (block :: later)) : IsSplit later.flatten later where
  flatten := rfl
  ne_nil := fun b hb ↦ h.ne_nil b (List.mem_cons_of_mem block hb)
  inner := fun b hb ↦ h.inner b (List.mem_cons_of_mem block hb)
  last := fun b hb ↦ h.last b (by
    cases later with
    | nil => cases hb
    | cons next behind => exact List.mem_cons_of_mem block hb)

/-- The first block ends with a branching instruction if there is code behind it. -/
theorem IsSplit.branches_of_ne_nil {code block : List Instruction} {later : List (List Instruction)}
    (h : IsSplit code (block :: later)) (hrest : later.flatten ≠ []) :
    ∀ instruction ∈ block.getLast?, instruction.isBranching = true := by
  refine h.last block ?_
  cases later with
  | nil => exact absurd rfl hrest
  | cons next behind => exact List.mem_cons_self

/-- There is only one way to cut code into blocks. -/
theorem IsSplit.eq_blocks {code : List Instruction} {bs : List (List Instruction)}
    (h : IsSplit code bs) : bs = blocks code := by
  induction bs generalizing code with
  | nil =>
    rw [← h.flatten]
    rfl
  | cons block later ih =>
    rw [← h.flatten, List.flatten_cons, blocks_append (h.ne_nil block List.mem_cons_self)
      (h.inner block List.mem_cons_self) h.branches_of_ne_nil, ← ih h.tail]

theorem IsSplit.cons {instruction : Instruction} {code : List Instruction}
    {bs : List (List Instruction)} (h : IsSplit code bs)
    (hbranching : instruction.isBranching = true) :
    IsSplit (instruction :: code) ([instruction] :: bs) where
  flatten := by simp [h.flatten]
  ne_nil := by simpa using h.ne_nil
  inner := by simpa using h.inner
  last := by
    have hlast := h.last
    cases bs with
    | nil => simp
    | cons block later => simpa [hbranching] using hlast

theorem IsSplit.extend {instruction : Instruction} {code : List Instruction}
    {bs : List (List Instruction)} (h : IsSplit code bs)
    (hstays : instruction.isBranching = false) :
    IsSplit (instruction :: code) (extendFirstBlock instruction bs) := by
  cases bs with
  | nil =>
    rw [← h.flatten]
    exact ⟨rfl, by simp [extendFirstBlock], by simp [extendFirstBlock], by simp [extendFirstBlock]⟩
  | cons block later =>
    have hblock : block ≠ [] := h.ne_nil block List.mem_cons_self
    refine ⟨by rw [flatten_extendFirstBlock, h.flatten], ?_, ?_, ?_⟩
    · rw [extendFirstBlock, List.forall_mem_cons]
      exact ⟨by simp, fun b hb ↦ h.ne_nil b (List.mem_cons_of_mem block hb)⟩
    · rw [extendFirstBlock, List.forall_mem_cons, List.dropLast_cons_of_ne_nil hblock,
        List.forall_mem_cons]
      exact ⟨⟨hstays, h.inner block List.mem_cons_self⟩,
        fun b hb ↦ h.inner b (List.mem_cons_of_mem block hb)⟩
    · have hlast := h.last
      rw [extendFirstBlock]
      cases later with
      | nil => simp
      | cons next behind =>
        rw [List.dropLast_cons_cons, List.forall_mem_cons] at hlast ⊢
        rw [List.getLast?_cons_of_ne_nil hblock]
        exact hlast

/-- Code is cut into blocks, of which none is empty. -/
theorem isSplit_blocks (code : List Instruction) : IsSplit code (blocks code) := by
  induction code with
  | nil => exact ⟨rfl, by simp [blocks], by simp [blocks], by simp [blocks]⟩
  | cons instruction later ih =>
    rw [blocks]
    split
    · next hbranching => exact ih.cons hbranching
    · next hstays => exact ih.extend (by simpa using hstays)

/-- The blocks are the only way to cut the code. -/
theorem isSplit_iff {code : List Instruction} {bs : List (List Instruction)} :
    IsSplit code bs ↔ bs = blocks code :=
  ⟨IsSplit.eq_blocks, fun h ↦ h ▸ isSplit_blocks code⟩

end WasmMeter
