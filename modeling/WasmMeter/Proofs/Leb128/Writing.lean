import WasmMeter.Proofs.Binary.Writes
import WasmMeter.Proofs.Leb128.SignedReading

/-!
# Numbers that are written

What is written for a number is read again with every width that is enough for the number, and
what stands behind it is left; from other bytes that are used up, the number is read only if they
are more (`IsWrittenForm`). Both come from the forms of a number: the readers take exactly the
forms, and the encoding is the shortest of them with every width (`IsWrittenForm.of_isShortest`).

A word of sixty-four bits is written by pushing its lowest group and moving the word down, until no
group is left, or until nothing but the sign of the group that was pushed last is left. That this
test of a signed word comes out where the integer is small enough for one group is
`signIsLeft_iff`; so the bytes that are pushed are those of the encoding (`pushGroups_eq`,
`pushSignedGroups_eq`).
-/

set_option autoImplicit false

namespace WasmMeter.Leb128

/-! ### Reading what is written -/

/-- The bytes are read as the value with every width that it fits in, whatever stands behind them,
and other bytes from which nothing but the value is read are more. -/
structure IsWrittenForm {α : Type} (read : Width → Reader UInt8 Error α)
    (decode : Bytes → Except Error α) (fits : Width → Prop) (a : α) (bytes : Bytes) : Prop where
  read_append : ∀ width rest, fits width → read width (bytes ++ rest) = .ok a rest
  length_lt : ∀ other, decode other = .ok a → Reader.rest (read .w64 other) = [] →
    other ≠ bytes → bytes.length < other.length

theorem IsWrittenForm.of_isShortest {α : Type} {read : Width → Reader UInt8 Error α}
    {fits : Width → Prop} {a : α} {bytes : Bytes} {forms : Width → Language UInt8}
    (hread : ∀ {width input rest},
      read width input = .ok a rest ↔ ∃ e ∈ forms width, e ++ rest = input)
    (hshortest : ∀ width, fits width → IsShortest (forms width) bytes) (hfits : fits .w64) :
    IsWrittenForm read (fun input ↦ Reader.value (read .w64 input)) fits a bytes where
  read_append := fun width rest hwidth ↦ hread.mpr ⟨bytes, (hshortest width hwidth).mem, rfl⟩
  length_lt := by
    intro other hvalue hrest hne
    cases hresult : read .w64 other with
    | ok b rest =>
      rw [hresult] at hvalue hrest
      obtain rfl : b = a := Except.ok.inj hvalue
      obtain rfl : rest = [] := hrest
      obtain ⟨e, he, happend⟩ := hread.mp hresult
      obtain rfl : e = other := by rw [← happend, List.append_nil]
      exact (hshortest .w64 hfits).lt_of_ne e he hne
    | error e rest =>
      rw [hresult] at hvalue
      cases hvalue

theorem isWrittenForm_encodeUnsigned (n : UInt64) :
    IsWrittenForm unsigned decodeUnsigned (fun width ↦ n.toNat < 2 ^ width.bits) n.toNat
      (encodeUnsigned n.toNat) :=
  .of_isShortest unsigned_eq_ok_iff (fun _ ↦ isShortest_encodeUnsigned) n.toNat_lt

theorem isWrittenForm_encodeSigned (i : Int64) :
    IsWrittenForm signed decodeSigned
      (fun width ↦ -2 ^ (width.bits - 1) ≤ i.toInt ∧ i.toInt < 2 ^ (width.bits - 1)) i.toInt
      (encodeSigned i.toInt) :=
  .of_isShortest signed_eq_ok_iff (fun _ hfits ↦ isShortest_encodeSigned hfits.1 hfits.2)
    ⟨i.le_toInt, i.toInt_lt⟩

/-! ### The groups of a word -/

theorem toNat_lowGroup (w : UInt64) : (w.toUInt8 &&& 0x7f).toNat = w.toNat % 128 := by
  have hmask := Nat.and_two_pow_sub_one_eq_mod (w.toNat % 2 ^ 8) 7
  rw [UInt8.toNat_and, UInt64.toNat_toUInt8, show (0x7f : UInt8).toNat = 2 ^ 7 - 1 from rfl, hmask]
  omega

theorem toNat_lowGroup_signed (w : Int64) :
    (w.toUInt64.toUInt8 &&& 0x7f).toNat = (w.toInt % 128).toNat := by
  rw [toNat_lowGroup, toInt_eq_toNat]
  split_ifs <;> omega

theorem eq_lastGroup {group : UInt8} {n : Nat} (hgroup : group.toNat = n) (hn : n < 128) :
    group = lastGroup n := by
  rw [← UInt8.toNat_inj, hgroup, lastGroup, UInt8.toNat_ofNat']
  omega

/-- The highest bit of a byte marks a group behind which another one follows. -/
theorem or_eq_innerGroup {group : UInt8} {n : Nat} (hgroup : group.toNat = n) (hn : n < 128) :
    group ||| 0x80 = innerGroup n := by
  have hmark := Nat.two_pow_add_eq_or_of_lt (i := 7) hn 1
  rw [← UInt8.toNat_inj, UInt8.toNat_or, hgroup, innerGroup, UInt8.toNat_ofNat', Nat.or_comm,
    show (0x80 : UInt8).toNat = 2 ^ 7 * 1 from rfl, ← hmark]
  omega

theorem toNat_shiftRight_group (w : UInt64) : (w >>> 7).toNat = w.toNat / 128 := by
  rw [UInt64.toNat_shiftRight, show (7 : UInt64).toNat % 64 = 7 from rfl,
    Nat.shiftRight_eq_div_pow]

/-- Moving a signed word down keeps its sign, so it is a division that rounds down. -/
theorem toInt_shiftRight_group (w : Int64) : (w >>> 7).toInt = w.toInt / 128 := by
  rw [← Int64.toInt_toBitVec, Int64.toBitVec_shiftRight, BitVec.toInt_sshiftRight',
    Int64.toInt_toBitVec, Int.shiftRight_eq_div_pow]
  rfl

/-! ### Pushing the groups of a word -/

/-- The output with the groups of a word behind it. -/
def pushGroups (out : Output) (w : UInt64) : Output :=
  let group := w.toUInt8 &&& 0x7f
  let left := w >>> 7
  if left = 0 then out.push group else pushGroups (out.push (group ||| 0x80)) left
termination_by w.toNat
decreasing_by
  rename_i hleft
  have hne : (w >>> 7).toNat ≠ 0 := fun hzero ↦ hleft (UInt64.toNat_inj.mp hzero)
  rw [toNat_shiftRight_group] at hne ⊢
  omega

/-- Whether what is left of a signed word repeats the sign of the group in front of it. -/
def SignIsLeft (group : UInt8) (left : Int64) : Prop :=
  left = 0 ∧ group &&& 0x40 = 0 ∨ left = -1 ∧ group &&& 0x40 ≠ 0

instance (group : UInt8) (left : Int64) : Decidable (SignIsLeft group left) :=
  inferInstanceAs (Decidable (_ ∨ _))

/-- Nothing but the sign is left if and only if the integer fits in one group. -/
theorem signIsLeft_iff (w : Int64) :
    SignIsLeft (w.toUInt64.toUInt8 &&& 0x7f) (w >>> 7) ↔ -64 ≤ w.toInt ∧ w.toInt < 64 := by
  have hgroup := toNat_lowGroup_signed w
  have hsign : w.toUInt64.toUInt8 &&& 0x7f &&& 0x40 ≠ 0 ↔ 64 ≤ (w.toInt % 128).toNat := by
    rw [and_sign_ne_zero_iff, signed?, payload, hgroup, decide_eq_true_eq,
      Nat.mod_eq_of_lt (by omega)]
  have hzero : w >>> 7 = 0 ↔ w.toInt / 128 = 0 := by
    rw [← Int64.toInt_inj, toInt_shiftRight_group, Int64.toInt_zero]
  have hones : w >>> 7 = -1 ↔ w.toInt / 128 = -1 := by
    rw [← Int64.toInt_inj, toInt_shiftRight_group]
    rfl
  have hclear : w.toUInt64.toUInt8 &&& 0x7f &&& 0x40 = 0 ↔ ¬64 ≤ (w.toInt % 128).toNat :=
    not_ne_iff.symm.trans (not_congr hsign)
  rw [SignIsLeft, hclear, hsign, hzero, hones]
  omega

/-- The output with the groups of a signed word behind it. -/
def pushSignedGroups (out : Output) (w : Int64) : Output :=
  let group := w.toUInt64.toUInt8 &&& 0x7f
  let left := w >>> 7
  if SignIsLeft group left then out.push group
  else pushSignedGroups (out.push (group ||| 0x80)) left
termination_by w.toInt.natAbs
decreasing_by
  rename_i hleft
  have hwide : ¬(-64 ≤ w.toInt ∧ w.toInt < 64) := fun hsmall ↦ hleft ((signIsLeft_iff w).mpr hsmall)
  rw [toInt_shiftRight_group]
  omega

/-- What is pushed is the encoding, group by group. -/
theorem pushGroups_eq (out : Output) (w : UInt64) :
    pushGroups out w = out.append (encodeUnsigned w.toNat) := by
  fun_induction pushGroups out w with
  | case1 out w group left hleft =>
    have hdiv := toNat_shiftRight_group w
    have hzero : (w >>> 7).toNat = 0 := congrArg UInt64.toNat hleft
    have hgroup : group = lastGroup w.toNat :=
      eq_lastGroup ((toNat_lowGroup w).trans (Nat.mod_eq_of_lt (by omega))) (by omega)
    rw [encodeUnsigned, if_pos (by omega), Output.push_eq_append, hgroup]
  | case2 out w group left hleft ih =>
    have hne : (w >>> 7).toNat ≠ 0 := fun hzero ↦ hleft (UInt64.toNat_inj.mp hzero)
    rw [toNat_shiftRight_group] at hne
    have hstep : encodeUnsigned w.toNat =
        [innerGroup (w.toNat % 128)] ++ encodeUnsigned (w.toNat / 128) := by
      rw [encodeUnsigned, if_neg (by omega)]
      rfl
    rw [ih, toNat_shiftRight_group, Output.push_eq_append,
      or_eq_innerGroup (toNat_lowGroup w) (by omega), hstep, Output.append_append]

theorem pushSignedGroups_eq (out : Output) (w : Int64) :
    pushSignedGroups out w = out.append (encodeSigned w.toInt) := by
  fun_induction pushSignedGroups out w with
  | case1 out w group left hleft =>
    have hgroup : group = lastGroup (w.toInt % 128).toNat :=
      eq_lastGroup (toNat_lowGroup_signed w) (by omega)
    rw [encodeSigned, if_pos ((signIsLeft_iff w).mp hleft), Output.push_eq_append, hgroup]
  | case2 out w group left hleft ih =>
    have hstep : encodeSigned w.toInt =
        [innerGroup (w.toInt % 128).toNat] ++ encodeSigned (w.toInt / 128) := by
      rw [encodeSigned, if_neg fun hsmall ↦ hleft ((signIsLeft_iff w).mpr hsmall)]
      rfl
    rw [ih, toInt_shiftRight_group, Output.push_eq_append,
      or_eq_innerGroup (toNat_lowGroup_signed w) (by omega), hstep, Output.append_append]

/-! ### What is pushed, and how much -/

/-- An output that has grown, and the number of bytes by which it has. -/
def counted (before after : Output) : Nat × Output := (after.size - before.size, after)

/-- The bytes are pushed behind the output, their number is told, and it is ten at most. -/
structure Pushes (pushed : Nat × Output) (out : Output) (bytes : Bytes) : Prop where
  toList : pushed.2.toList = out.toList ++ bytes
  count : pushed.1 = bytes.length
  count_le : pushed.1 ≤ 10

theorem counted_append (out : Output) (bytes : Bytes) :
    counted out (out.append bytes) = (bytes.length, out.append bytes) := by
  rw [counted, Output.size_append, Nat.add_sub_cancel_left]

theorem pushes_append {out : Output} {bytes : Bytes} (hbytes : 7 * (bytes.length - 1) < 64) :
    Pushes (bytes.length, out.append bytes) out bytes where
  toList := Output.toList_append out bytes
  count := rfl
  count_le := by
    dsimp only
    omega

/-- What is written for a number of sixty-four bits is self-delimiting and the shortest that is
read as the number; pushing it appends it and tells how much was pushed, in words as in numbers. -/
theorem written_exact (out : Output) (n : UInt64) (i : Int64) :
    (IsWrittenForm unsigned decodeUnsigned (fun width ↦ n.toNat < 2 ^ width.bits) n.toNat
        (encodeUnsigned n.toNat) ∧
      Pushes (out.pushUnsigned n.toNat) out (encodeUnsigned n.toNat) ∧
      counted out (pushGroups out n) = out.pushUnsigned n.toNat) ∧
    (IsWrittenForm signed decodeSigned
        (fun width ↦ -2 ^ (width.bits - 1) ≤ i.toInt ∧ i.toInt < 2 ^ (width.bits - 1)) i.toInt
        (encodeSigned i.toInt) ∧
      Pushes (out.pushSigned i.toInt) out (encodeSigned i.toInt) ∧
      counted out (pushSignedGroups out i) = out.pushSigned i.toInt) := by
  refine ⟨⟨isWrittenForm_encodeUnsigned n, ?_, ?_⟩, ⟨isWrittenForm_encodeSigned i, ?_, ?_⟩⟩
  · exact pushes_append (length_encodeUnsigned_lt (by decide) n.toNat_lt)
  · rw [pushGroups_eq, counted_append, Output.pushUnsigned]
  · exact pushes_append (length_encodeSigned_lt (by decide) i.le_toInt i.toInt_lt)
  · rw [pushSignedGroups_eq, counted_append, Output.pushSigned]

end WasmMeter.Leb128
