import Mathlib.Tactic.Ring
import WasmMeter.Leb128

/-!
# Numbers as groups of seven bits

A complete number is a list of groups of which all but the last one announce another
(`Groups`). Its bytes stand for a natural number (`value`), and in two's complement for an integer
(`signedValue`). The groups of a number are determined by its value and their count
(`Groups.eq_of_value_eq`, `Groups.eq_of_signedValue_eq`), and what `encodeUnsigned` and
`encodeSigned` write is a complete number of the right value with the fewest groups
(`length_encodeUnsigned_value_le`, `length_encodeSigned_signedValue_le`). A number that fits in
`bits` bits needs fewer than `bits / 7 + 1` groups.
-/

set_option autoImplicit false

namespace WasmMeter.Leb128

/-! ### Groups and their value -/

/-- The numbers of a width that is seven bits larger are a hundred and twenty-eight times as
many. -/
theorem two_pow_sub_eq {bits shift : Nat} (hwide : shift + 7 < bits) :
    2 ^ (bits - shift) = 128 * 2 ^ (bits - (shift + 7)) := by
  rw [show (128 : Nat) = 2 ^ 7 from rfl, ← pow_add]
  congr 1
  omega

/-- A complete number: every byte says that another one follows, except the last. -/
inductive Groups : Bytes → Prop
  | last {b : UInt8} (hlast : continues b = false) : Groups [b]
  | inner {b : UInt8} {later : Bytes} (hinner : continues b = true) (hlater : Groups later) :
    Groups (b :: later)

/-- The natural number that the groups stand for, the least significant group first. -/
def value : Bytes → Nat
  | [] => 0
  | b :: later => payload b + 128 * value later

/-- The integer that the groups stand for in two's complement. -/
def signedValue : Bytes → Int
  | [] => 0
  | [b] => if signed? b then (payload b : Int) - 128 else payload b
  | b :: c :: later => payload b + 128 * signedValue (c :: later)

theorem Groups.length_pos {e : Bytes} (he : Groups e) : 0 < e.length := by
  cases he <;> simp

theorem signedValue_cons {b : UInt8} {later : Bytes} (hlater : Groups later) :
    signedValue (b :: later) = payload b + 128 * signedValue later := by
  cases hlater <;> rfl

theorem payload_lt (b : UInt8) : payload b < 128 := Nat.mod_lt _ (by decide)

/-- A byte is its group and whether it announces another. -/
theorem eq_of_payload_eq {b c : UInt8} (hpayload : payload b = payload c)
    (hcontinues : continues b = continues c) : b = c := by
  have hb := b.toNat_lt
  have hc := c.toNat_lt
  simp only [payload, continues, decide_eq_decide] at hpayload hcontinues
  apply UInt8.toNat_inj.mp
  omega

/-- Two numbers with as many groups are the same if they agree on a quantity from which the first
group can be told, and the same quantity of the groups behind it. -/
theorem Groups.eq_of_agree {V : Type} {quantity : Bytes → V}
    (hlast : ∀ b c, quantity [b] = quantity [c] → payload b = payload c)
    (hinner : ∀ b c later others, Groups later → Groups others →
      quantity (b :: later) = quantity (c :: others) →
        payload b = payload c ∧ quantity later = quantity others)
    {e f : Bytes} (he : Groups e) (hf : Groups f) (hlength : e.length = f.length)
    (hagree : quantity e = quantity f) : e = f := by
  induction he generalizing f with
  | @last b hb =>
    cases hf with
    | @last c hc => rw [eq_of_payload_eq (hlast b c hagree) (hb.trans hc.symm)]
    | inner hc hothers =>
      have hpos := hothers.length_pos
      simp only [List.length_cons, List.length_nil] at hlength
      omega
  | @inner b later hb hlater ih =>
    cases hf with
    | last hc =>
      have hpos := hlater.length_pos
      simp only [List.length_cons, List.length_nil] at hlength
      omega
    | @inner c others hc hothers =>
      obtain ⟨hpayload, hrest⟩ := hinner b c later others hlater hothers hagree
      rw [eq_of_payload_eq hpayload (hb.trans hc.symm),
        ih hothers (by simpa using hlength) hrest]

/-- A number has one form of each length. -/
theorem Groups.eq_of_value_eq {e f : Bytes} (he : Groups e) (hf : Groups f)
    (hlength : e.length = f.length) (hvalue : value e = value f) : e = f := by
  refine he.eq_of_agree ?_ ?_ hf hlength hvalue
  · intro b c h
    simpa [value] using h
  · intro b c later others _ _ h
    have hb := payload_lt b
    have hc := payload_lt c
    simp only [value] at h
    omega

theorem Groups.eq_of_signedValue_eq {e f : Bytes} (he : Groups e) (hf : Groups f)
    (hlength : e.length = f.length) (hvalue : signedValue e = signedValue f) : e = f := by
  refine he.eq_of_agree ?_ ?_ hf hlength hvalue
  · intro b c h
    have hb := payload_lt b
    have hc := payload_lt c
    simp only [signedValue, signed?, decide_eq_true_eq] at h
    split_ifs at h <;> omega
  · intro b c later others hlater hothers h
    have hb := payload_lt b
    have hc := payload_lt c
    rw [signedValue_cons hlater, signedValue_cons hothers] at h
    omega

/-! ### The bytes of groups -/

theorem payload_lastGroup {n : Nat} (hn : n < 128) : payload (lastGroup n) = n := by
  simp only [payload, lastGroup, UInt8.toNat_ofNat']
  omega

theorem continues_lastGroup {n : Nat} (hn : n < 128) : continues (lastGroup n) = false := by
  simp only [continues, lastGroup, UInt8.toNat_ofNat', decide_eq_false_iff_not]
  omega

theorem payload_innerGroup {n : Nat} (hn : n < 128) : payload (innerGroup n) = n := by
  simp only [payload, innerGroup, UInt8.toNat_ofNat']
  omega

theorem continues_innerGroup {n : Nat} (hn : n < 128) : continues (innerGroup n) = true := by
  simp only [continues, innerGroup, UInt8.toNat_ofNat', decide_eq_true_eq]
  omega

/-! ### What is written -/

/-- The encoding of a number is a row of groups. -/
theorem groups_encodeUnsigned (n : Nat) : Groups (encodeUnsigned n) := by
  fun_induction encodeUnsigned n with
  | case1 n hn => exact .last (continues_lastGroup hn)
  | case2 n hn ih => exact .inner (continues_innerGroup (Nat.mod_lt n (by decide))) ih

/-- The encoding of a number has the value of the number. -/
theorem value_encodeUnsigned (n : Nat) : value (encodeUnsigned n) = n := by
  fun_induction encodeUnsigned n with
  | case1 n hn => simp [value, payload_lastGroup hn]
  | case2 n hn ih =>
    rw [value, payload_innerGroup (Nat.mod_lt n (by decide)), ih, Nat.mod_add_div]

theorem groups_encodeSigned (i : Int) : Groups (encodeSigned i) := by
  fun_induction encodeSigned i with
  | case1 i low hi => exact .last (continues_lastGroup (by omega))
  | case2 i low hi ih => exact .inner (continues_innerGroup (by omega)) ih

theorem signedValue_encodeSigned (i : Int) : signedValue (encodeSigned i) = i := by
  fun_induction encodeSigned i with
  | case1 i low hi =>
    simp only [signedValue, signed?, payload_lastGroup (show low < 128 by omega),
      decide_eq_true_eq]
    split_ifs <;> omega
  | case2 i low hi ih =>
    rw [signedValue_cons (groups_encodeSigned _), payload_innerGroup (by omega), ih]
    omega

/-- No form of a number has fewer groups than the one that is written. -/
theorem length_encodeUnsigned_value_le {e : Bytes} (he : Groups e) :
    (encodeUnsigned (value e)).length ≤ e.length := by
  induction he with
  | @last b hb =>
    have hlow := payload_lt b
    simp [encodeUnsigned, value, hlow]
  | @inner b later hb hlater ih =>
    have hlow := payload_lt b
    rw [encodeUnsigned]
    split
    · simp
    · have hdiv : value (b :: later) / 128 = value later := by simp only [value]; omega
      rw [hdiv, List.length_cons, List.length_cons]
      exact Nat.succ_le_succ ih

/-- No form of a number in two's complement has fewer groups than the one that is written. -/
theorem length_encodeSigned_signedValue_le {e : Bytes} (he : Groups e) :
    (encodeSigned (signedValue e)).length ≤ e.length := by
  induction he with
  | @last b hb =>
    have hlow := payload_lt b
    have hrange : -64 ≤ signedValue [b] ∧ signedValue [b] < 64 := by
      simp only [signedValue, signed?, decide_eq_true_eq]
      split_ifs <;> omega
    rw [encodeSigned, if_pos hrange]
    simp
  | @inner b later hb hlater ih =>
    have hlow := payload_lt b
    rw [encodeSigned]
    split
    · simp
    · have hdiv : signedValue (b :: later) / 128 = signedValue later := by
        rw [signedValue_cons hlater]
        omega
      rw [hdiv, List.length_cons, List.length_cons]
      exact Nat.succ_le_succ ih

/-- A larger number needs no fewer groups. -/
theorem length_encodeUnsigned_mono {m n : Nat} (hmn : m ≤ n) :
    (encodeUnsigned m).length ≤ (encodeUnsigned n).length := by
  fun_induction encodeUnsigned n generalizing m with
  | case1 n hn => rw [encodeUnsigned, if_pos (by omega)]; simp
  | case2 n hn ih =>
    rw [encodeUnsigned]
    split_ifs with hm
    · simp
    · exact Nat.succ_le_succ (ih (Nat.div_le_div_right hmn))

/-- A natural number of `bits` bits needs no more groups than hold that many bits. -/
theorem length_encodeUnsigned_lt {n bits : Nat} (hbits : 0 < bits) (hn : n < 2 ^ bits) :
    7 * ((encodeUnsigned n).length - 1) < bits := by
  induction n using Nat.strong_induction_on generalizing bits with
  | _ n ih =>
    rw [encodeUnsigned]
    split_ifs with hsmall
    · simpa using hbits
    · have hwide : 7 < bits := by
        by_contra hnarrow
        have hpow : 2 ^ bits ≤ 2 ^ 7 := Nat.pow_le_pow_right (by decide) (by omega)
        omega
      have hsplit : 2 ^ (bits - 0) = 128 * 2 ^ (bits - (0 + 7)) := two_pow_sub_eq (by omega)
      rw [Nat.sub_zero, Nat.zero_add] at hsplit
      have hlater : 7 * ((encodeUnsigned (n / 128)).length - 1) < bits - 7 :=
      ih (n / 128) (by omega) (by omega) (by omega)
      have hpos := (groups_encodeUnsigned (n / 128)).length_pos
      rw [List.length_cons]
      omega

/-- An integer of `bits` bits needs no more groups than hold that many bits. -/
theorem length_encodeSigned_lt {i : Int} {bits : Nat} (hbits : 0 < bits)
    (hlower : -2 ^ (bits - 1) ≤ i) (hupper : i < 2 ^ (bits - 1)) :
    7 * ((encodeSigned i).length - 1) < bits := by
  induction bits using Nat.strong_induction_on generalizing i with
  | _ bits ih =>
    rw [encodeSigned]
    split_ifs with hsmall
    · simpa using hbits
    · have hwide : 7 < bits := by
        by_contra hnarrow
        have hpow : (2 : Int) ^ (bits - 1) ≤ 2 ^ 6 := by
          exact_mod_cast Nat.pow_le_pow_right (n := 2) (by decide) (show bits - 1 ≤ 6 by omega)
        omega
      have hsplit : (2 : Int) ^ (bits - 1) = 2 ^ (bits - 7 - 1) * 128 := by
        rw [show (128 : Int) = 2 ^ 7 from rfl, ← pow_add]
        congr 1
        omega
      have hlater : 7 * ((encodeSigned (i / 128)).length - 1) < bits - 7 :=
        ih (bits - 7) (by omega) (by omega) (by omega) (by omega)
      have hpos := (groups_encodeSigned (i / 128)).length_pos
      rw [List.length_cons]
      omega

end WasmMeter.Leb128
