/-!
# Readers

A reader takes tokens from the front of a list and answers a value or a failure. What is left of
the list is kept in both cases, so the position of a failure can be told: it is the number of
tokens that are gone. Bytes, the words of a listing and the characters of a document are all read
this way.

`bind_apply` is the rule of sequencing: the second reader starts where the first one stopped, and
does not run after a failure. `exactly_append` and `exactly_of_length_lt` say what taking a number
of tokens does where there are enough of them and where there are not.
-/

set_option autoImplicit false

namespace WasmMeter

/-- Takes tokens of type `τ` from the front of a list; fails with an `ε` or answers an `α`. -/
abbrev Reader (τ ε : Type) := EStateM ε (List τ)

namespace Reader

variable {τ ε α β : Type}

theorem bind_apply (p : Reader τ ε α) (f : α → Reader τ ε β) (input : List τ) :
    (p >>= f) input =
      match p input with
      | .ok a rest => f a rest
      | .error e rest => .error e rest := by
  cases h : p input <;> simp [bind, EStateM.bind, h]

theorem map_apply (f : α → β) (p : Reader τ ε α) (input : List τ) :
    (f <$> p) input =
      match p input with
      | .ok a rest => .ok (f a) rest
      | .error e rest => .error e rest := by
  cases h : p input <;> simp [Functor.map, EStateM.map, h]

theorem pure_apply (a : α) (input : List τ) : (pure a : Reader τ ε α) input = .ok a input :=
  rfl

/-- What the result leaves of the input. -/
def rest : EStateM.Result ε (List τ) α → List τ
  | .ok _ left => left
  | .error _ left => left

/-- The result without the rest of the input. -/
def value : EStateM.Result ε (List τ) α → Except ε α
  | .ok a _ => .ok a
  | .error e _ => .error e

/-- Fails and takes nothing. -/
def fail (e : ε) : Reader τ ε α := fun input ↦ .error e input

/-- The reader with its failures renamed. -/
def mapError {ε' : Type} (f : ε → ε') (p : Reader τ ε α) : Reader τ ε' α := fun input ↦
  match p input with
  | .ok a left => .ok a left
  | .error e left => .error (f e) left

/-- Answers a value that may be missing, and fails where it is. -/
def require (e : ε) : Option α → Reader τ ε α
  | some a => pure a
  | none => fail e

/-- The next token, left in place. -/
def peek : Reader τ ε (Option τ) := fun input ↦ .ok input.head? input

/-- Whether the input is used up. -/
def atEnd : Reader τ ε Bool := fun input ↦ .ok input.isEmpty input

/-- Takes the next token. -/
def next (missing : ε) : Reader τ ε τ
  | [] => .error missing []
  | t :: left => .ok t left

/-- Takes `count` tokens, or none where fewer are left. -/
def exactly (count : Nat) (missing : ε) : Reader τ ε (List τ) := fun input ↦
  let (taken, left) := input.splitAt count
  if taken.length = count then .ok taken left else .error missing input

@[simp]
theorem exactly_append (taken left : List τ) (missing : ε) :
    exactly taken.length missing (taken ++ left) = .ok taken left := by
  simp [exactly, List.splitAt_eq]

theorem exactly_of_length_lt {count : Nat} {input : List τ} (missing : ε)
    (hshort : input.length < count) : exactly count missing input = .error missing input := by
  simp only [exactly, List.splitAt_eq, List.length_take]
  rw [if_neg (by omega)]

/-- Takes `count` tokens, or all where fewer are left. -/
def atMost (count : Nat) : Reader τ ε (List τ) := fun input ↦
  let (taken, left) := input.splitAt count
  .ok taken left

/-- Takes everything. -/
def all : Reader τ ε (List τ) := fun input ↦ .ok input []

/-- Runs a reader on a list of tokens that it may not look past, and answers what it left of
them beside its value. -/
def inside (region : List τ) (p : Reader τ ε α) : Reader τ ε (α × List τ) := fun input ↦
  match p region with
  | .ok a left => .ok (a, left) input
  | .error e _ => .error e input

/-- Runs a reader a number of times. -/
def times (p : Reader τ ε α) : (count : Nat) → Reader τ ε (List α)
  | 0 => pure []
  | count + 1 => do
    let first ← p
    let later ← times p count
    pure (first :: later)

/-- Runs a reader until the input is used up, but at most `bound` times. -/
def upTo (p : Reader τ ε α) : (bound : Nat) → Reader τ ε (List α)
  | 0 => pure []
  | bound + 1 => do
    if ← atEnd then
      pure []
    else
      let first ← p
      let later ← upTo p bound
      pure (first :: later)

/-- Runs a reader until the input is used up. A reader that takes at least one token each time
needs no more turns than there are tokens. -/
def untilEnd (p : Reader τ ε α) : Reader τ ε (List α) := fun input ↦ upTo p input.length input

end Reader

end WasmMeter
