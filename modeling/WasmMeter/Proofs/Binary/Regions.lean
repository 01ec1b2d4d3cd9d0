import WasmMeter.Binary.WriteScript
import WasmMeter.Proofs.Binary.Writes

/-!
# Regions inside regions

What a script of writes puts behind an output does not depend on the output: it is the row of the
bytes of its writes (`WriteOp.content`), in which a region that is closed stands behind the number
of its bytes, whatever gap was left for that, and one that is abandoned behind its gap. Nor do the
answers depend on more than the number of bytes written before (`WriteOp.answer`).

All this holds as long as there can be room for the bytes that the output has on the way, the gaps
of open regions included (`WriteOp.peaks`). A gap may be of any width, and one that is too wide
stops the program, or makes the output lose bytes where sums of words wrap around
(`WriteOp.stops_runAll`).

`WriteOp.runAll_of_peaks_le` is proved along the nesting of regions. A region is closed when
everything in it is, so the row of its bytes is what stands behind its gap
(`Output.closeRegion_openRegion`), and closing it moves nothing in front of it. As sizes stay within
bounds, no sum and no difference of them leaves the range of words.
`WriteOp.runAll_of_lt_peaks` follows the same nesting down to the first write that needs too much.
-/

set_option autoImplicit false

namespace WasmMeter

open Leb128

namespace WriteOp

/-! ### The bytes and the answer of a write -/

mutual

/-- The bytes of a write. -/
def content : WriteOp → Bytes
  | .byte b => [b]
  | .bytes row => row
  | .text string => Utf8.encode string
  | .varUint n => encodeUnsigned n.toNat
  | .varInt i => encodeSigned i.toInt
  | .stream row => row
  | .region reserved script abandoned =>
    if abandoned then List.replicate reserved.toNat 0 ++ contents script
    else encodeUnsigned (contents script).length ++ contents script

/-- The bytes of the writes of a script in turn. -/
def contents : List WriteOp → Bytes
  | [] => []
  | op :: later => op.content ++ contents later

end

mutual

/-- The answer to a write behind a number of bytes. -/
def answer (written : Nat) : WriteOp → WriteAnswer
  | .byte _ => .done
  | .bytes _ => .done
  | .text _ => .done
  | .varUint n => .length (encodeUnsigned n.toNat).length
  | .varInt i => .length (encodeSigned i.toInt).length
  | .stream row => .length row.length
  | .region reserved script abandoned =>
    .region (answers (written + reserved.toNat) script) (contents script).length
      (if abandoned then none else some (contents script).length)

/-- The answers to the writes of a script behind a number of bytes, each with the number of bytes
that there are then. -/
def answers (written : Nat) : List WriteOp → List (WriteAnswer × Nat)
  | [] => []
  | op :: later =>
    let behind := written + op.content.length
    (op.answer written, behind) :: answers behind later

end

/-! ### Sizes -/

mutual

/-- The most bytes that an output has at a time while a write is carried out behind a number of
bytes, the gaps of open regions included. -/
def peak (written : Nat) : WriteOp → Nat
  | .region reserved script abandoned =>
    max (peaks (written + reserved.toNat) script)
      (written + (content (.region reserved script abandoned)).length)
  | op => written + op.content.length

/-- The most bytes that an output has at a time while a script is carried out behind a number of
bytes. -/
def peaks (written : Nat) : List WriteOp → Nat
  | [] => written
  | op :: later => max (op.peak written) (peaks (written + op.content.length) later)

end

theorem le_peak (written : Nat) (op : WriteOp) : written + op.content.length ≤ op.peak written := by
  cases op with
  | region reserved script abandoned =>
    rw [peak]
    exact Nat.le_max_right ..
  | _ => exact Nat.le_refl _

theorem le_peaks (written : Nat) (script : List WriteOp) :
    written + (contents script).length ≤ peaks written script := by
  induction script generalizing written with
  | nil => exact Nat.le_refl written
  | cons op later ih =>
    rw [contents, List.length_append, ← Nat.add_assoc, peaks]
    exact (ih _).trans (Nat.le_max_right ..)

theorem self_le_peaks (written : Nat) (script : List WriteOp) : written ≤ peaks written script :=
  (Nat.le_add_right ..).trans (le_peaks written script)

end WriteOp

/-! ### Checked sizes -/

/-- Why the program stops if it needs so many bytes that an output cannot have them: there is no
room, or their number is no word. -/
def Stop.Needing (needed : Nat) (stop : Stop) : Prop :=
  stop = .capacity ∨ stop = .sum ∧ UInt64.size ≤ needed

theorem Stop.Needing.mono {needed more : Nat} {stop : Stop} (h : stop.Needing needed)
    (hle : needed ≤ more) : stop.Needing more :=
  h.imp_right fun hsum ↦ ⟨hsum.1, hsum.2.trans hle⟩

theorem Overflow.add_of_lt (overflow : Overflow) {a b : Nat} (h : a + b < UInt64.size) :
    overflow.add a b = .ok (a + b) :=
  if_pos h

theorem Overflow.sub_of_le (overflow : Overflow) {a b : Nat} (h : b ≤ a) :
    overflow.sub a b = .ok (a - b) :=
  if_pos h

namespace Output

variable {out : Output} {reserved : Nat}

theorem tryAppend_of_le {row : Bytes} (h : out.size + row.length ≤ maxSize) :
    out.tryAppend row = .ok (out.append row) :=
  if_pos h

theorem tryAppend_of_lt {row : Bytes} (h : maxSize < out.size + row.length) :
    out.tryAppend row = .error .capacity :=
  if_neg h.not_ge

/-- A size that the output can have is made up with zero bytes. -/
theorem resize_of_le (h : out.size + reserved ≤ maxSize) :
    out.resize (out.size + reserved) = .ok (out.openRegion reserved).2 := by
  rw [resize, if_pos h, Nat.add_sub_cancel_left]
  refine congrArg Except.ok (eq_of_toList_eq ?_)
  have htake : out.toList.take (out.size + reserved) = out.toList :=
    List.take_of_length_le (by rw [length_toList]; exact Nat.le_add_right _ _)
  rw [toList_append, toList_openRegion]
  simpa [toList, List.extract] using htake

theorem tryOpenRegion_of_le (overflow : Overflow) (h : out.size + reserved ≤ maxSize) :
    out.tryOpenRegion overflow reserved = .ok (out.openRegion reserved) := by
  have hword : out.size + reserved < UInt64.size := lt_of_le_of_lt h (by decide)
  rw [tryOpenRegion, overflow.add_of_lt hword]
  simp only [bind, Except.bind, resize_of_le h]
  rfl

/-- A gap that makes the output too large stops the program, as does a sum that is no word if it is
checked for. -/
theorem tryOpenRegion_of_lt {overflow : Overflow} (h : maxSize < out.size + reserved)
    (hword : out.size + reserved < UInt64.size ∨ overflow = .stops) :
    ∃ stop, out.tryOpenRegion overflow reserved = .error stop ∧
      stop.Needing (out.size + reserved) := by
  by_cases hlt : out.size + reserved < UInt64.size
  · refine ⟨.capacity, ?_, .inl rfl⟩
    rw [tryOpenRegion, overflow.add_of_lt hlt]
    simp only [bind, Except.bind, resize, if_neg h.not_ge]
  · obtain rfl := hword.resolve_left hlt
    refine ⟨.sum, ?_, .inr ⟨rfl, Nat.le_of_not_lt hlt⟩⟩
    rw [tryOpenRegion, Overflow.add, if_neg hlt]
    rfl

/-- The size while a region is open. -/
theorem size_openRegion_append (out : Output) (reserved : Nat) (row : Bytes) :
    ((out.openRegion reserved).2.append row).size = out.size + reserved + row.length := by
  rw [size_append, size_openRegion]

theorem start_openRegion (out : Output) (reserved : Nat) :
    (out.openRegion reserved).1.start = out.size := rfl

theorem reserved_openRegion (out : Output) (reserved : Nat) :
    (out.openRegion reserved).1.reserved = reserved := rfl

/-- What an open region is told of its length is a difference that exists. -/
theorem tryPayloadLength_append (overflow : Overflow) (out : Output) (reserved : Nat)
    (row : Bytes) :
    ((out.openRegion reserved).2.append row).tryPayloadLength overflow
      (out.openRegion reserved).1 = .ok row.length := by
  rw [tryPayloadLength, size_openRegion_append, start_openRegion, reserved_openRegion,
    overflow.sub_of_le (by omega)]
  simp only [bind, Except.bind]
  rw [overflow.sub_of_le (by omega)]
  congr 1
  omega

/-- A region is closed if the output can have its length in the place of its gap. -/
theorem tryCloseRegion_append (overflow : Overflow) (row : Bytes)
    (hword : out.size + reserved < UInt64.size) :
    ((out.openRegion reserved).2.append row).tryCloseRegion overflow (out.openRegion reserved).1 =
      if out.size + (encodeUnsigned row.length ++ row).length ≤ maxSize then
        .ok (row.length, out.append (encodeUnsigned row.length ++ row))
      else .error .capacity := by
  rw [tryCloseRegion, tryPayloadLength_append, closeRegion_openRegion, size_openRegion_append,
    start_openRegion, reserved_openRegion, overflow.add_of_lt hword]
  simp only [bind, Except.bind]
  rw [if_neg (by omega), if_neg (by omega), size_append]

end Output

namespace WriteOp

/-! ### Running a script -/

/-- A write of bytes that the output can have. -/
theorem map_tryAppend_of_le {out : Output} {row : Bytes} (answer : WriteAnswer)
    (h : out.size + row.length ≤ Output.maxSize) :
    (answer, ·) <$> out.tryAppend row = .ok (answer, out.append row) := by
  rw [Output.tryAppend_of_le h]
  rfl

theorem map_tryAppend_of_lt {out : Output} {row : Bytes} (answer : WriteAnswer)
    (h : Output.maxSize < out.size + row.length) :
    (answer, ·) <$> out.tryAppend row = .error .capacity := by
  rw [Output.tryAppend_of_lt h]
  rfl

/-- A region whose script puts bytes behind its gap. -/
theorem run_region {overflow : Overflow} {reserved : UInt64} {script : List WriteOp}
    (abandoned : Bool) {out : Output} {steps : List (WriteAnswer × Nat)} {row : Bytes}
    (hroom : out.size + reserved.toNat ≤ Output.maxSize)
    (h : runAll overflow script (out.openRegion reserved.toNat).2 =
      .ok (steps, (out.openRegion reserved.toNat).2.append row)) :
    run overflow (.region reserved script abandoned) out =
      if abandoned then
        .ok (.region steps row.length none, out.append (List.replicate reserved.toNat 0 ++ row))
      else if out.size + (encodeUnsigned row.length ++ row).length ≤ Output.maxSize then
        .ok (.region steps row.length (some row.length),
          out.append (encodeUnsigned row.length ++ row))
      else .error .capacity := by
  have hword : out.size + reserved.toNat < UInt64.size := lt_of_le_of_lt hroom (by decide)
  rw [run, Output.tryOpenRegion_of_le overflow hroom]
  simp only [bind, Except.bind, h, Output.tryPayloadLength_append]
  cases abandoned with
  | true =>
    rw [if_pos rfl, if_pos rfl, Output.append_append, Output.openRegion]
    rfl
  | false =>
    rw [if_neg Bool.false_ne_true, if_neg Bool.false_ne_true,
      Output.tryCloseRegion_append overflow row hword]
    by_cases hclosed : out.size + (encodeUnsigned row.length ++ row).length ≤ Output.maxSize
    · rw [if_pos hclosed, if_pos hclosed]
      rfl
    · rw [if_neg hclosed, if_neg hclosed]

mutual

/-- A write puts its bytes behind any output that can have all bytes on the way. -/
theorem run_of_peak_le (overflow : Overflow) : (op : WriteOp) → (out : Output) →
    op.peak out.size ≤ Output.maxSize →
    op.run overflow out = .ok (op.answer out.size, out.append op.content)
  | .byte _, _, h => map_tryAppend_of_le _ h
  | .bytes _, _, h => map_tryAppend_of_le _ h
  | .text _, _, h => map_tryAppend_of_le _ h
  | .varUint _, _, h => map_tryAppend_of_le _ h
  | .varInt _, _, h => map_tryAppend_of_le _ h
  | .stream _, _, h => map_tryAppend_of_le _ h
  | .region reserved script abandoned, out, h => by
    rw [peak, Nat.max_le] at h
    obtain ⟨hscript, hclosed⟩ := h
    have hroom : out.size + reserved.toNat ≤ Output.maxSize :=
      (self_le_peaks _ script).trans hscript
    rw [← Output.size_openRegion] at hscript
    rw [run_region abandoned hroom (runAll_of_peaks_le overflow script _ hscript), answer, content,
      Output.size_openRegion]
    rw [content] at hclosed
    cases abandoned with
    | true => rfl
    | false => exact if_pos hclosed

/-- A script puts the bytes of its writes behind any output that can have all bytes on the way. -/
theorem runAll_of_peaks_le (overflow : Overflow) : (script : List WriteOp) → (out : Output) →
    peaks out.size script ≤ Output.maxSize →
    runAll overflow script out = .ok (answers out.size script, out.append (contents script))
  | [], out, _ => by rw [runAll, answers, contents, Output.append_nil]; rfl
  | op :: later, out, h => by
    rw [peaks, Nat.max_le, ← Output.size_append] at h
    rw [runAll, run_of_peak_le overflow op out h.1]
    simp only [bind, Except.bind]
    rw [runAll_of_peaks_le overflow later _ h.2, answers, contents, Output.append_append,
      Output.size_append]
    rfl

end

mutual

/-- A write that needs more bytes than an output can have stops the program. -/
theorem run_of_lt_peak {overflow : Overflow} : (op : WriteOp) → (out : Output) →
    out.size ≤ Output.maxSize → Output.maxSize < op.peak out.size →
    (op.peak out.size < UInt64.size ∨ overflow = .stops) →
    ∃ stop, op.run overflow out = .error stop ∧ stop.Needing (op.peak out.size)
  | .byte _, _, _, h, _ => ⟨.capacity, map_tryAppend_of_lt _ h, .inl rfl⟩
  | .bytes _, _, _, h, _ => ⟨.capacity, map_tryAppend_of_lt _ h, .inl rfl⟩
  | .text _, _, _, h, _ => ⟨.capacity, map_tryAppend_of_lt _ h, .inl rfl⟩
  | .varUint _, _, _, h, _ => ⟨.capacity, map_tryAppend_of_lt _ h, .inl rfl⟩
  | .varInt _, _, _, h, _ => ⟨.capacity, map_tryAppend_of_lt _ h, .inl rfl⟩
  | .stream _, _, _, h, _ => ⟨.capacity, map_tryAppend_of_lt _ h, .inl rfl⟩
  | .region reserved script abandoned, out, hsize, h, hword => by
    have hopened : out.size + reserved.toNat ≤ peaks (out.size + reserved.toNat) script :=
      self_le_peaks _ script
    have hscript : peaks (out.size + reserved.toNat) script ≤
        peak out.size (.region reserved script abandoned) := by
      rw [peak]
      exact Nat.le_max_left ..
    by_cases hroom : out.size + reserved.toNat ≤ Output.maxSize
    · by_cases hfits : peaks (out.size + reserved.toNat) script ≤ Output.maxSize
      · -- Everything fits while the region is open, so it is not closed.
        rw [peak] at h
        have hclosed := (lt_max_iff.mp h).resolve_left hfits.not_gt
        have hinside := (le_peaks (out.size + reserved.toNat) script).trans hfits
        rw [← Output.size_openRegion] at hfits
        refine ⟨.capacity, ?_, .inl rfl⟩
        rw [run_region abandoned hroom (runAll_of_peaks_le overflow script _ hfits)]
        rw [content] at hclosed
        cases abandoned with
        | true =>
          rw [if_pos rfl, List.length_append, List.length_replicate] at hclosed
          omega
        | false =>
          exact if_neg hclosed.not_ge
      · have hwithin : (out.openRegion reserved.toNat).2.size = out.size + reserved.toNat :=
          Output.size_openRegion out reserved.toNat
        obtain ⟨stop, hstop, hneeding⟩ := runAll_of_lt_peaks script
          (out.openRegion reserved.toNat).2 (hwithin ▸ hroom) (hwithin ▸ Nat.lt_of_not_le hfits)
          (hword.imp_left fun hlt ↦ hwithin ▸ hscript.trans_lt hlt)
        rw [hwithin] at hneeding
        refine ⟨stop, ?_, hneeding.mono hscript⟩
        rw [run, Output.tryOpenRegion_of_le overflow hroom]
        simp only [bind, Except.bind, hstop]
    · obtain ⟨stop, hstop, hneeding⟩ := Output.tryOpenRegion_of_lt (Nat.lt_of_not_le hroom)
        (hword.imp_left (hopened.trans hscript).trans_lt)
      refine ⟨stop, ?_, hneeding.mono (hopened.trans hscript)⟩
      rw [run, hstop]
      rfl

/-- A script that needs more bytes than an output can have stops the program. -/
theorem runAll_of_lt_peaks {overflow : Overflow} : (script : List WriteOp) → (out : Output) →
    out.size ≤ Output.maxSize → Output.maxSize < peaks out.size script →
    (peaks out.size script < UInt64.size ∨ overflow = .stops) →
    ∃ stop, runAll overflow script out = .error stop ∧ stop.Needing (peaks out.size script)
  | [], _, hsize, h, _ => absurd hsize h.not_ge
  | op :: later, out, hsize, h, hword => by
    rw [peaks] at h hword ⊢
    by_cases hop : op.peak out.size ≤ Output.maxSize
    · have hlater := (lt_max_iff.mp h).resolve_left hop.not_gt
      have hbehind : (out.append op.content).size = out.size + op.content.length :=
        Output.size_append out op.content
      obtain ⟨stop, hstop, hneeding⟩ := runAll_of_lt_peaks later (out.append op.content)
        (hbehind ▸ (le_peak _ op).trans hop) (hbehind ▸ hlater)
        (hword.imp_left fun hlt ↦ hbehind ▸ (Nat.le_max_right ..).trans_lt hlt)
      rw [hbehind] at hneeding
      refine ⟨stop, ?_, hneeding.mono (Nat.le_max_right ..)⟩
      rw [runAll, run_of_peak_le overflow op out hop]
      simp only [bind, Except.bind, hstop]
    · obtain ⟨stop, hstop, hneeding⟩ := run_of_lt_peak op out hsize (Nat.lt_of_not_le hop)
        (hword.imp_left (Nat.le_max_left ..).trans_lt)
      refine ⟨stop, ?_, hneeding.mono (Nat.le_max_left ..)⟩
      rw [runAll, hstop]
      rfl

end

end WriteOp

end WasmMeter
