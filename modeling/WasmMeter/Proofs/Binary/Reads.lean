import Mathlib.Computability.Language
import Mathlib.Data.List.Forall2
import WasmMeter.Binary.Decoder
import WasmMeter.Proofs.Reader

/-!
# What a decoder reads

Each value that a decoder can answer has a language, the byte strings from which it is read.
`ReadsIn stops allowed p L` says that `p` answers the values that are `allowed`, each from exactly
the words of its language, and leaves exactly the rests at which it `stops`: any rest for most
decoders (`Reads`), none for those that read up to the end of the input (`ReadsToEnd`).

A decoder that reads a part and goes on depending on it reads the product of the languages of the
parts (`ReadsIn.part`, `ReadsIn.bind`), so the language of a record is the product of the languages
of its fields. Lists are read from the product of the languages of their elements, whether they are
counted (`ReadsIn.times`) or take all that there is (`ReadsIn.untilEnd`).
-/

set_option autoImplicit false

namespace WasmMeter

variable {α β : Type}

/-! ### Reading a language -/

@[simp]
theorem exists_mem_singleton_append_iff {word rest input : Bytes} :
    (∃ w ∈ ({word} : Language UInt8), w ++ rest = input) ↔ word ++ rest = input := by
  constructor
  · rintro ⟨_, rfl, happend⟩
    exact happend
  · exact fun happend ↦ ⟨word, rfl, happend⟩

/-- The decoder answers the values that are allowed, each from the words of its language, and stops
in front of the rests at which it may stop. -/
def ReadsIn (stops : Bytes → Prop) (allowed : α → Prop) (p : Decoder α)
    (L : α → Language UInt8) : Prop :=
  ∀ input a rest,
    p input = .ok a rest ↔ stops rest ∧ allowed a ∧ ∃ word ∈ L a, word ++ rest = input

/-- The decoder answers the values that are allowed and may stop anywhere. -/
abbrev ReadsOnly (allowed : α → Prop) (p : Decoder α) (L : α → Language UInt8) : Prop :=
  ReadsIn (fun _ ↦ True) allowed p L

/-- The decoder answers every value and may stop anywhere. -/
abbrev Reads (p : Decoder α) (L : α → Language UInt8) : Prop := ReadsOnly (fun _ ↦ True) p L

/-- The decoder answers every value and stops at the end of the input. -/
abbrev ReadsToEnd (p : Decoder α) (L : α → Language UInt8) : Prop :=
  ReadsIn (fun rest ↦ rest = []) (fun _ ↦ True) p L

theorem Reads.eq_ok_iff {p : Decoder α} {L : α → Language UInt8} (hp : Reads p L)
    {input rest : Bytes} {a : α} :
    p input = .ok a rest ↔ ∃ word ∈ L a, word ++ rest = input := by
  simpa using hp input a rest

theorem ReadsOnly.eq_ok_iff {allowed : α → Prop} {p : Decoder α} {L : α → Language UInt8}
    (hp : ReadsOnly allowed p L) {input rest : Bytes} {a : α} :
    p input = .ok a rest ↔ allowed a ∧ ∃ word ∈ L a, word ++ rest = input := by
  simpa using hp input a rest

/-- What a decoder reads from an input that it uses up. -/
theorem ReadsIn.eq_ok_nil_iff {stops : Bytes → Prop} {allowed : α → Prop} {p : Decoder α}
    {L : α → Language UInt8} (hp : ReadsIn stops allowed p L) (hstops : stops []) {input : Bytes}
    {a : α} : p input = .ok a [] ↔ allowed a ∧ input ∈ L a := by
  rw [hp input a []]
  constructor
  · rintro ⟨-, hallowed, word, hword, rfl⟩
    exact ⟨hallowed, by rwa [List.append_nil]⟩
  · rintro ⟨hallowed, hinput⟩
    exact ⟨hstops, hallowed, input, hinput, List.append_nil input⟩

/-- A decoder that answers a value without reading. -/
theorem ReadsIn.pure {allowed : α → Prop} {a : α} (hallowed : ∀ b, allowed b ↔ b = a) :
    ReadsOnly allowed (pure a) fun _ ↦ 1 := by
  intro input b rest
  rw [Reader.pure_apply, hallowed]
  simp only [EStateM.Result.ok.injEq, true_and, Language.mem_one, exists_eq_left, List.nil_append]
  exact ⟨fun ⟨ha, hrest⟩ ↦ ⟨ha.symm, hrest.symm⟩, fun ⟨hb, hinput⟩ ↦ ⟨hb.symm, hinput.symm⟩⟩

/-- A decoder that always fails answers no value. -/
theorem ReadsIn.fail {e : DecodeError} {stops : Bytes → Prop} {allowed : α → Prop}
    {L : α → Language UInt8} (hallowed : ∀ a, ¬allowed a) :
    ReadsIn stops allowed (Reader.fail e) L := by
  intro input a rest
  simp [Reader.fail, hallowed a]

/-- A decoder that reads a part of its answer, and then the rest of it in a way that may depend on
the part. -/
theorem ReadsIn.bind {stops : Bytes → Prop} {allowed : β → Prop} {sound : α → Prop}
    {p : Decoder α} {f : α → Decoder β} {L : α → Language UInt8} {M : β → Language UInt8}
    (part : β → α) (hsound : ∀ b, allowed b → sound (part b)) (hp : ReadsOnly sound p L)
    (hf : ∀ a, sound a → ReadsIn stops (fun b ↦ allowed b ∧ part b = a) (f a) M) :
    ReadsIn stops allowed (p >>= f) fun b ↦ L (part b) * M b := by
  intro input b rest
  rw [Reader.bind_eq_ok_iff]
  constructor
  · rintro ⟨a, mid, hfirst, hsecond⟩
    obtain ⟨ha, x, hx, rfl⟩ := hp.eq_ok_iff.mp hfirst
    obtain ⟨hstops, ⟨hallowed, rfl⟩, y, hy, rfl⟩ := (hf a ha mid b rest).mp hsecond
    exact ⟨hstops, hallowed, x ++ y, Language.append_mem_mul hx hy, List.append_assoc x y rest⟩
  · rintro ⟨hstops, hallowed, word, hword, rfl⟩
    obtain ⟨x, hx, y, hy, rfl⟩ := Language.mem_mul.mp hword
    have ha := hsound b hallowed
    refine ⟨part b, y ++ rest, hp.eq_ok_iff.mpr ⟨ha, x, hx, (List.append_assoc x y rest).symm⟩, ?_⟩
    exact (hf (part b) ha (y ++ rest) b rest).mpr ⟨hstops, ⟨hallowed, rfl⟩, y, hy, rfl⟩

/-- A decoder that reads a part of its answer, and then the rest of it. -/
theorem ReadsIn.part {stops : Bytes → Prop} {allowed : β → Prop} {p : Decoder α}
    {f : α → Decoder β} {L : α → Language UInt8} {M : β → Language UInt8} (part : β → α)
    (hp : Reads p L) (hf : ∀ a, ReadsIn stops (fun b ↦ allowed b ∧ part b = a) (f a) M) :
    ReadsIn stops allowed (p >>= f) fun b ↦ L (part b) * M b :=
  .bind part (fun _ _ ↦ trivial) hp fun a _ ↦ hf a

/-- A decoder that reads the last part of its answer. -/
theorem ReadsIn.bindLast {stops : Bytes → Prop} {allowed : β → Prop} {sound : α → Prop}
    {p : Decoder α} {f : α → β} {L : α → Language UInt8} (part : β → α)
    (hsound : ∀ b, allowed b → sound (part b)) (hp : ReadsIn stops sound p L)
    (hf : ∀ a b, sound a → (f a = b ↔ allowed b ∧ part b = a)) :
    ReadsIn stops allowed (p >>= fun a ↦ Pure.pure (f a)) fun b ↦ L (part b) := by
  intro input b rest
  rw [Reader.bind_eq_ok_iff]
  simp only [Reader.pure_apply, EStateM.Result.ok.injEq]
  constructor
  · rintro ⟨a, mid, ha, hb, rfl⟩
    obtain ⟨hstops, hallowed, hword⟩ := (hp input a mid).mp ha
    obtain ⟨hwhole, rfl⟩ := (hf a b hallowed).mp hb
    exact ⟨hstops, hwhole, hword⟩
  · rintro ⟨hstops, hallowed, hword⟩
    have ha := hsound b hallowed
    exact ⟨part b, rest, (hp input _ rest).mpr ⟨hstops, ha, hword⟩,
      (hf _ b ha).mpr ⟨hallowed, rfl⟩, rfl⟩

/-- A decoder that reads the last part of its answer, which may be anything. -/
theorem ReadsIn.lastPart {stops : Bytes → Prop} {allowed : β → Prop} {p : Decoder α} {f : α → β}
    {L : α → Language UInt8} (part : β → α) (hp : ReadsIn stops (fun _ ↦ True) p L)
    (hf : ∀ a b, f a = b ↔ allowed b ∧ part b = a) :
    ReadsIn stops allowed (p >>= fun a ↦ Pure.pure (f a)) fun b ↦ L (part b) :=
  .bindLast part (fun _ _ ↦ trivial) hp fun a b _ ↦ hf a b

/-- A decoder whose answers are given another form. -/
theorem ReadsIn.map {stops : Bytes → Prop} {allowed : α → Prop} {wanted : β → Prop}
    {p : Decoder α} {f : α → β} {L : α → Language UInt8} {M : β → Language UInt8}
    (hp : ReadsIn stops allowed p L) (hM : ∀ a, M (f a) = L a)
    (hwanted : ∀ b, wanted b ↔ ∃ a, allowed a ∧ f a = b) : ReadsIn stops wanted (f <$> p) M := by
  intro input b rest
  rw [Reader.map_eq_ok_iff, hwanted]
  constructor
  · rintro ⟨a, ha, rfl⟩
    obtain ⟨hstops, hallowed, hword⟩ := (hp input a rest).mp ha
    exact ⟨hstops, ⟨a, hallowed, rfl⟩, by rwa [hM]⟩
  · rintro ⟨hstops, ⟨a, hallowed, rfl⟩, hword⟩
    rw [hM] at hword
    exact ⟨a, (hp input a rest).mpr ⟨hstops, hallowed, hword⟩, rfl⟩

/-- A decoder that reads something from which its answer is determined, if there is one. -/
theorem ReadsIn.determined {allowed : α → Prop} {wanted : β → Prop} {p : Decoder α}
    {f : α → Decoder β} {g : β → α} {L : α → Language UInt8} (hp : ReadsOnly allowed p L)
    (hf : ∀ a mid b rest, f a mid = .ok b rest ↔ g b = a ∧ mid = rest)
    (hwanted : ∀ b, wanted b ↔ allowed (g b)) :
    ReadsOnly wanted (p >>= f) fun b ↦ L (g b) := by
  intro input b rest
  rw [true_and, Reader.bind_eq_ok_iff, hwanted]
  constructor
  · rintro ⟨a, mid, ha, hb⟩
    obtain ⟨rfl, rfl⟩ := (hf a mid b rest).mp hb
    exact hp.eq_ok_iff.mp ha
  · exact fun hword ↦ ⟨g b, rest, hp.eq_ok_iff.mpr hword, (hf _ _ _ _).mpr ⟨rfl, rfl⟩⟩

/-- The language of an answer may be given in another form. -/
theorem ReadsIn.congr {stops : Bytes → Prop} {allowed wanted : α → Prop} {p : Decoder α}
    {L M : α → Language UInt8} (hp : ReadsIn stops allowed p L)
    (hwanted : ∀ a, wanted a ↔ allowed a)
    (hM : ∀ a, allowed a → M a = L a) : ReadsIn stops wanted p M := by
  intro input a rest
  rw [hp input a rest, hwanted]
  constructor
  · rintro ⟨hstops, hallowed, hword⟩
    exact ⟨hstops, hallowed, by rwa [hM a hallowed]⟩
  · rintro ⟨hstops, hallowed, hword⟩
    exact ⟨hstops, hallowed, by rwa [hM a hallowed] at hword⟩

/-! ### Lists -/

/-- The words of the elements of a list in turn. -/
def inTurn (L : α → Language UInt8) (list : List α) : Language UInt8 := (list.map L).prod

@[simp]
theorem inTurn_nil (L : α → Language UInt8) : inTurn L [] = 1 := rfl

@[simp]
theorem inTurn_cons (L : α → Language UInt8) (a : α) (later : List α) :
    inTurn L (a :: later) = L a * inTurn L later := by
  rw [inTurn, List.map_cons, List.prod_cons, inTurn]

/-- Only the empty list is made of no bytes, if no element is. -/
theorem nil_mem_inTurn_iff {L : α → Language UInt8} (hL : ∀ a, [] ∉ L a) {list : List α} :
    [] ∈ inTurn L list ↔ list = [] := by
  constructor
  · intro h
    cases list with
    | nil => rfl
    | cons a later =>
      rw [inTurn_cons] at h
      obtain ⟨x, hx, y, -, happend⟩ := Language.mem_mul.mp h
      rw [(List.append_eq_nil_iff.mp happend).1] at hx
      exact absurd hx (hL a)
  · rintro rfl
    exact Language.nil_mem_one

/-- A word of a list in turn falls into words of its elements. -/
theorem mem_inTurn_iff {L : α → Language UInt8} {list : List α} {word : Bytes} :
    word ∈ inTurn L list ↔
      ∃ words : List Bytes, words.flatten = word ∧
        List.Forall₂ (fun a part ↦ part ∈ L a) list words := by
  induction list generalizing word with
  | nil =>
    rw [inTurn_nil, Language.mem_one]
    constructor
    · rintro rfl
      exact ⟨[], rfl, .nil⟩
    · rintro ⟨words, rfl, hwords⟩
      rw [List.forall₂_nil_left_iff.mp hwords]
      rfl
  | cons a later ih =>
    rw [inTurn_cons, Language.mem_mul]
    constructor
    · rintro ⟨x, hx, y, hy, rfl⟩
      obtain ⟨words, rfl, hwords⟩ := ih.mp hy
      exact ⟨x :: words, rfl, .cons hx hwords⟩
    · rintro ⟨_, rfl, hwords⟩
      obtain ⟨x, words, hx, hlater, rfl⟩ := List.forall₂_cons_left_iff.mp hwords
      exact ⟨x, hx, words.flatten, ih.mpr ⟨words, rfl, hlater⟩, rfl⟩

/-- A list has no more elements than bytes, if no element is empty. -/
theorem length_le_of_mem_inTurn {L : α → Language UInt8} (hL : ∀ a, [] ∉ L a) {list : List α}
    {word : Bytes} (h : word ∈ inTurn L list) : list.length ≤ word.length := by
  induction list generalizing word with
  | nil => exact Nat.zero_le _
  | cons a later ih =>
    rw [inTurn_cons] at h
    obtain ⟨x, hx, y, hy, rfl⟩ := Language.mem_mul.mp h
    have hpos : 0 < x.length := List.length_pos_iff.mpr fun hnil ↦ hL a (hnil ▸ hx)
    have hlater := ih hy
    rw [List.length_cons, List.length_append]
    omega

/-- Two parts have words together if and only if each of them has one. -/
theorem exists_mem_mul_iff {L M : Language UInt8} :
    (∃ word, word ∈ L * M) ↔ (∃ word, word ∈ L) ∧ ∃ word, word ∈ M := by
  constructor
  · rintro ⟨word, hword⟩
    obtain ⟨x, hx, y, hy, -⟩ := Language.mem_mul.mp hword
    exact ⟨⟨x, hx⟩, y, hy⟩
  · rintro ⟨⟨x, hx⟩, y, hy⟩
    exact ⟨x ++ y, Language.append_mem_mul hx hy⟩

/-- A list has a word if and only if each of its elements has one. -/
theorem exists_mem_inTurn_iff {L : α → Language UInt8} {list : List α} :
    (∃ word, word ∈ inTurn L list) ↔ ∀ a ∈ list, ∃ word, word ∈ L a := by
  induction list with
  | nil => exact iff_of_true ⟨[], Language.nil_mem_one⟩ nofun
  | cons a later ih => rw [inTurn_cons, exists_mem_mul_iff, ih, List.forall_mem_cons]

/-- A decoder that reads an element and then more of them. -/
theorem Decoder.cons_eq_ok_iff {p : Decoder α} {others : Decoder (List α)}
    {L : α → Language UInt8} (hp : Reads p L) {input rest : Bytes} {list : List α} :
    (do
      let first ← p
      let later ← others
      pure (first :: later) : Decoder (List α)) input = .ok list rest ↔
      ∃ a later word mid, list = a :: later ∧ word ∈ L a ∧ word ++ mid = input ∧
        others mid = .ok later rest := by
  rw [Reader.bind_eq_ok_iff]
  constructor
  · rintro ⟨a, mid, hfirst, hlater⟩
    obtain ⟨later, _, hothers, ⟨⟩⟩ := Reader.bind_eq_ok_iff.mp hlater
    obtain ⟨word, hword, rfl⟩ := hp.eq_ok_iff.mp hfirst
    exact ⟨a, later, word, mid, rfl, hword, rfl, hothers⟩
  · rintro ⟨a, later, word, mid, rfl, hword, rfl, hothers⟩
    exact ⟨a, mid, hp.eq_ok_iff.mpr ⟨word, hword, rfl⟩,
      Reader.bind_eq_ok_iff.mpr ⟨later, rest, hothers, rfl⟩⟩

/-- A decoder that runs another one a number of times. -/
theorem ReadsIn.times {p : Decoder α} {L : α → Language UInt8} (hp : Reads p L) (count : Nat) :
    ReadsOnly (fun list ↦ list.length = count) (Reader.times p count) (inTurn L) := by
  induction count with
  | zero =>
    have hnil : ReadsOnly (fun list : List α ↦ list = []) (Pure.pure []) fun _ ↦ 1 :=
      .pure fun _ ↦ Iff.rfl
    refine hnil.congr (fun list ↦ List.length_eq_zero_iff) ?_
    rintro list rfl
    exact inTurn_nil L
  | succ count ih =>
    intro input list rest
    rw [Reader.times, Decoder.cons_eq_ok_iff hp]
    constructor
    · rintro ⟨a, later, x, mid, rfl, hx, rfl, hlater⟩
      obtain ⟨hlength, y, hy, rfl⟩ := ih.eq_ok_iff.mp hlater
      refine ⟨trivial, by simp [hlength], x ++ y, ?_, List.append_assoc x y rest⟩
      rw [inTurn_cons]
      exact Language.append_mem_mul hx hy
    · rintro ⟨-, hlength, word, hword, rfl⟩
      cases list with
      | nil => simp at hlength
      | cons a later =>
        rw [inTurn_cons] at hword
        obtain ⟨x, hx, y, hy, rfl⟩ := Language.mem_mul.mp hword
        exact ⟨a, later, x, y ++ rest, rfl, hx, (List.append_assoc x y rest).symm,
          ih.eq_ok_iff.mpr ⟨by simpa using hlength, y, hy, rfl⟩⟩

/-- As each element takes a byte at least, a bound on the bytes is a bound on the elements. -/
theorem Decoder.upTo_eq_ok_iff {p : Decoder α} {L : α → Language UInt8} (hp : Reads p L)
    (hL : ∀ a, [] ∉ L a) {bound : Nat} {input rest : Bytes} {list : List α}
    (hbound : input.length ≤ bound) :
    Reader.upTo p bound input = .ok list rest ↔ rest = [] ∧ input ∈ inTurn L list := by
  have hempty {list : List α} : (Pure.pure [] : Decoder (List α)) [] = .ok list rest ↔
      rest = [] ∧ [] ∈ inTurn L list := by
    rw [Reader.pure_apply, nil_mem_inTurn_iff hL]
    simp [eq_comm, and_comm]
  induction bound generalizing input list with
  | zero =>
    obtain rfl := List.eq_nil_of_length_eq_zero (Nat.le_zero.mp hbound)
    exact hempty
  | succ bound ih =>
    cases input with
    | nil => exact hempty
    | cons b tail =>
      refine (Decoder.cons_eq_ok_iff hp).trans ?_
      constructor
      · rintro ⟨a, later, x, mid, rfl, hx, happend, hlater⟩
        have hpos : 0 < x.length := List.length_pos_iff.mpr fun hnil ↦ hL a (hnil ▸ hx)
        have hmid : mid.length ≤ bound := by
          rw [← happend, List.length_append] at hbound
          omega
        obtain ⟨rfl, hy⟩ := (ih hmid).mp hlater
        refine ⟨rfl, ?_⟩
        rw [inTurn_cons, ← happend]
        exact Language.append_mem_mul hx hy
      · rintro ⟨rfl, hword⟩
        cases list with
        | nil => cases (Language.mem_one _).mp hword
        | cons a later =>
          rw [inTurn_cons] at hword
          obtain ⟨x, hx, y, hy, happend⟩ := Language.mem_mul.mp hword
          have hpos : 0 < x.length := List.length_pos_iff.mpr fun hnil ↦ hL a (hnil ▸ hx)
          have hmid : y.length ≤ bound := by
            rw [← happend, List.length_append] at hbound
            omega
          exact ⟨a, later, x, y, rfl, hx, happend, (ih hmid).mpr ⟨rfl, hy⟩⟩

/-- A decoder that runs another one up to the end of the input. -/
theorem ReadsIn.untilEnd {p : Decoder α} {L : α → Language UInt8} (hp : Reads p L)
    (hL : ∀ a, [] ∉ L a) : ReadsToEnd (Reader.untilEnd p) (inTurn L) := by
  intro input list rest
  rw [Reader.untilEnd, Decoder.upTo_eq_ok_iff hp hL (Nat.le_refl _)]
  constructor
  · rintro ⟨rfl, hword⟩
    exact ⟨rfl, trivial, input, hword, List.append_nil input⟩
  · rintro ⟨rfl, -, word, hword, rfl⟩
    rw [List.append_nil]
    exact ⟨rfl, hword⟩

end WasmMeter
