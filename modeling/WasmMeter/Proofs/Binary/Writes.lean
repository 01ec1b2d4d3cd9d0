import WasmMeter.Binary.Encoder
import WasmMeter.Proofs.Binary.Reads
import WasmMeter.Proofs.Leb128.Forms

/-!
# What an encoder writes

An encoder that succeeds on every output, and appends the same bytes to all of them, `Writes` these
bytes. `WritesShortest e L` says that `e` writes the shortest word of the language `L`, provided
that there is a word at all.

The encoders of numbers write shortest forms, and what is made of shortest parts is shortest itself
(`WritesShortest.bind`, `WritesShortest.each`). A region is the case that takes an argument: what
shortens its content never lengthens the form of its length (`WritesShortest.region`).
-/

set_option autoImplicit false

namespace WasmMeter

open Leb128

/-! ### Outputs -/

namespace Output

theorem eq_of_toList_eq {out other : Output} (h : out.toList = other.toList) : out = other := by
  cases out
  cases other
  rw [Output.mk.injEq]
  exact Array.toList_inj.mp h

@[simp]
theorem append_nil (out : Output) : out.append [] = out := eq_of_toList_eq (by simp)

theorem append_append (out : Output) (v w : Bytes) :
    out.append (v ++ w) = (out.append v).append w :=
  eq_of_toList_eq (by simp)

theorem push_eq_append (out : Output) (b : UInt8) : out.push b = out.append [b] :=
  eq_of_toList_eq (by simp)

theorem size_append (out : Output) (bytes : Bytes) :
    (out.append bytes).size = out.size + bytes.length := by
  rw [← length_toList, toList_append, List.length_append, length_toList]

theorem size_openRegion (out : Output) (reserved : Nat) :
    (out.openRegion reserved).2.size = out.size + reserved := by
  rw [openRegion, size_append, List.length_replicate]

/-- The gap of a region and what is in front of it are not counted. -/
theorem payloadLength_append (out : Output) (reserved : Nat) (content : Bytes) :
    ((out.openRegion reserved).2.append content).payloadLength (out.openRegion reserved).1 =
      content.length := by
  have hregion : (out.openRegion reserved).1 = ⟨out.size, reserved⟩ := rfl
  rw [payloadLength, size_append, size_openRegion, hregion, Nat.add_assoc,
    Nat.add_sub_cancel_left, Nat.add_sub_cancel_left]

/-- What is written into a region ends up behind its length. -/
theorem closeRegion_openRegion (out : Output) (reserved : Nat) (content : Bytes) :
    ((out.openRegion reserved).2.append content).closeRegion (out.openRegion reserved).1 =
      out.append (encodeUnsigned content.length ++ content) := by
  refine eq_of_toList_eq ?_
  have hstart : (out.openRegion reserved).1.start = out.toList.length := (length_toList out).symm
  have hreserved : (out.openRegion reserved).1.reserved = reserved := rfl
  have hdrop : (out.toList ++ (List.replicate reserved 0 ++ content)).drop
      (out.toList.length + reserved) = content := by
    rw [List.drop_append, List.drop_eq_nil_of_le (by omega)]
    simp
  rw [toList_closeRegion, payloadLength_append, hstart, hreserved, toList_append,
    toList_openRegion, List.append_assoc, hdrop, List.take_left, toList_append]

end Output

/-! ### Writing a word -/

/-- The encoder appends the bytes to any output. -/
def Writes (e : Encoder Unit) (word : Bytes) : Prop := ∀ out, e out = .ok () (out.append word)

namespace Writes

variable {e f : Encoder Unit} {v w : Bytes}

theorem pure : Writes (pure ()) [] := fun out ↦ by
  rw [Output.append_nil]
  rfl

theorem byte (b : UInt8) : Writes (.byte b) [b] := fun out ↦ by
  rw [Encoder.byte, Output.push_eq_append]

theorem bytes (content : Bytes) : Writes (.bytes content) content := fun _ ↦ rfl

theorem bind_apply (he : Writes e v) (f : Encoder Unit) (out : Output) :
    (do e; f : Encoder Unit) out = f (out.append v) := by
  simp [Bind.bind, EStateM.bind, he out]

theorem bind (he : Writes e v) (hf : Writes f w) : Writes (do e; f) (v ++ w) := fun out ↦ by
  rw [he.bind_apply, hf, Output.append_append]

/-- The elements of a list in turn, if each of them is written. -/
theorem exists_each {α : Type} {element : α → Encoder Unit} {list : List α}
    (helement : ∀ a ∈ list, ∃ word, Writes (element a) word) :
    ∃ word, Writes (.each element list) word := by
  induction list with
  | nil => exact ⟨[], pure⟩
  | cons a later ih =>
    obtain ⟨x, hx⟩ := helement a List.mem_cons_self
    obtain ⟨y, hy⟩ := ih fun b hb ↦ helement b (List.mem_cons_of_mem a hb)
    exact ⟨x ++ y, hx.bind hy⟩

/-- A region is written behind its length. -/
theorem region (he : Writes e w) : Writes (.region e) (encodeUnsigned w.length ++ w) := fun out ↦ by
  simp only [Encoder.region, he (out.openRegion Encoder.lengthReserve).2]
  rw [← Output.closeRegion_openRegion out Encoder.lengthReserve w]

theorem run (he : Writes e w) : e.run .empty = .ok w := by
  rw [Encoder.run, he]
  simp

end Writes

/-! ### Writing a shortest word -/

/-- The encoder writes the shortest word of the language, if the language has one. -/
def WritesShortest (e : Encoder Unit) (L : Language UInt8) : Prop :=
  ∀ v ∈ L, ∃ w, Writes e w ∧ IsShortest L w

namespace WritesShortest

variable {α : Type} {e f : Encoder Unit} {L M : Language UInt8}

theorem pure : WritesShortest (pure ()) 1 := fun _ _ ↦ ⟨[], .pure, .one⟩

theorem byte (b : UInt8) : WritesShortest (.byte b) {[b]} :=
  fun _ _ ↦ ⟨[b], .byte b, .singleton [b]⟩

theorem bytes (content : Bytes) : WritesShortest (.bytes content) {content} :=
  fun _ _ ↦ ⟨content, .bytes content, .singleton content⟩

/-- A number is written with as few groups as it needs. -/
theorem unsigned (width : Width) (n : Nat) : WritesShortest (.unsigned n) (unsignedForms width n) :=
  fun _ hv ↦ ⟨encodeUnsigned n, .bytes _, isShortest_encodeUnsigned hv.2.2.2⟩

theorem signed (width : Width) (i : Int) : WritesShortest (.signed i) (signedForms width i) :=
  fun _ hv ↦ ⟨encodeSigned i, .bytes _, isShortest_encodeSigned hv.2.2.2.1 hv.2.2.2.2⟩

/-- Two parts, each of them shortest. -/
theorem bind (he : WritesShortest e L) (hf : WritesShortest f M) :
    WritesShortest (do e; f) (L * M) := by
  intro v hv
  obtain ⟨a, ha, b, hb, rfl⟩ := Language.mem_mul.mp hv
  obtain ⟨x, hx, hxL⟩ := he a ha
  obtain ⟨y, hy, hyM⟩ := hf b hb
  exact ⟨x ++ y, hx.bind hy, hxL.mul hyM⟩

/-- The elements of a list in turn. -/
theorem each {element : α → Encoder Unit} {forms : α → Language UInt8}
    (helement : ∀ a, WritesShortest (element a) (forms a)) (list : List α) :
    WritesShortest (.each element list) (inTurn forms list) := by
  induction list with
  | nil => exact .pure
  | cons a later ih =>
    rw [inTurn_cons]
    exact (helement a).bind ih

/-- A list behind the number of its elements. -/
theorem counted {element : α → Encoder Unit} {forms : α → Language UInt8}
    (helement : ∀ a, WritesShortest (element a) (forms a)) (list : List α) :
    WritesShortest (.counted element list) (unsignedForms .w32 list.length * inTurn forms list) :=
  .bind (unsigned .w32 list.length) (each helement list)

/-- The content of a region may be written shorter than it was read, and then its length does not
take more bytes. -/
theorem region (he : WritesShortest e L) : WritesShortest (.region e)
    {word | ∃ content ∈ L, word ∈ unsignedForms .w32 content.length * {content}} := by
  rintro v ⟨_, hcontent, hv⟩
  obtain ⟨size, hsize, content, rfl, rfl⟩ := Language.mem_mul.mp hv
  obtain ⟨w, hw, hshortest⟩ := he content hcontent
  have hlength {c : Bytes} (hc : c ∈ L) :
      (encodeUnsigned w.length).length ≤ (encodeUnsigned c.length).length :=
    length_encodeUnsigned_mono (hshortest.length_le hc)
  have hbound : w.length < 2 ^ 32 := lt_of_le_of_lt (hshortest.length_le hcontent) hsize.2.2.2
  have hform : IsShortest (unsignedForms .w32 w.length) (encodeUnsigned w.length) :=
    isShortest_encodeUnsigned hbound
  refine ⟨encodeUnsigned w.length ++ w, hw.region, ?_, ?_⟩
  · exact ⟨w, hshortest.mem, Language.append_mem_mul hform.mem rfl⟩
  · rintro _ ⟨_, hc, hword⟩ hne
    obtain ⟨x, hx, c, rfl, rfl⟩ := Language.mem_mul.mp hword
    have hx' := (isShortest_encodeUnsigned hx.2.2.2).length_le hx
    rw [List.length_append, List.length_append]
    -- Other forms have a longer content, or the same content behind a longer form of its length.
    by_cases heq : c = w
    · subst heq
      have hshorter := hform.lt_of_ne x hx fun hsame ↦ hne (by rw [hsame])
      omega
    · have hshorter := hshortest.lt_of_ne c hc heq
      have hmono := hlength hc
      omega

end WritesShortest

end WasmMeter
