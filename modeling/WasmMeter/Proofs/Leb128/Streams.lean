import Mathlib.Tactic.SplitIfs
import WasmMeter.Leb128.Stream
import WasmMeter.Proofs.Reader

/-!
# What reads find in a stream

A stream is data with failures in between, apart from attempts that are interrupted, which leave no
trace. `Supply` is what is left then: the data bytes up to the next failure, and the later failures,
each with the data behind it. A number is read from the data bytes as it is read from a byte string,
if it ends among them; otherwise they are gone with the failure behind them, which is the answer
(`Supply.read`).

Reading from a stream is reading from its supply (`Request.read_supply`), by induction on the
events, and so are reads in turn (`Stream.readAll_exact`). Streams that differ in interruptions have
the same supply (`Stream.supply_uninterrupted`).
-/

set_option autoImplicit false

namespace WasmMeter.Leb128

/-- Whether the attempt is interrupted, so that it is made again. -/
def Event.isInterruption : Event → Bool
  | .failure .interrupted _ => true
  | _ => false

/-- The error of a number that a failure cuts short. -/
def Error.ofFailure (failure : Failure) (message : String) : Error :=
  match failure with
  | .endOfInput => .unexpectedEnd
  | failure => .source failure message

/-- The data bytes up to the next failure, and the failures that follow, each as the error of a
number that it cuts short, with the data bytes behind it. -/
structure Supply where
  data : Bytes
  later : List (Error × Bytes)
  deriving DecidableEq, Repr

namespace Supply

/-- The number of data bytes. -/
def unread (supply : Supply) : Nat :=
  (supply.data ++ supply.later.flatMap fun failure ↦ failure.2).length

/-- The error of a number that the next failure cuts short, and what is behind the failure. Where
there is none, the end of the stream takes its place, again and again. -/
def cut (supply : Supply) : Error × Supply :=
  match supply.later with
  | [] => (.unexpectedEnd, ⟨[], []⟩)
  | (error, data) :: later => (error, ⟨data, later⟩)

/-- Reads a number from the data bytes as from a byte string. Where these end too early, they are
gone together with the next failure, and the answer is its error. -/
def readBy {α : Type} (p : Reader UInt8 Error α) (supply : Supply) : Except Error α × Supply :=
  match p supply.data with
  | .ok a rest => (.ok a, { supply with data := rest })
  | .error .unexpectedEnd _ => (.error supply.cut.1, supply.cut.2)
  | .error e rest => (.error e, { supply with data := rest })

/-- Reads the number that is asked for. A width that there is not is refused. -/
def read (request : Request) (supply : Supply) : Except RequestError Int × Supply :=
  match Width.ofNat? request.bits with
  | none => (.error .width, supply)
  | some width =>
    if request.signed then (supply.readBy (signed width)).map (Except.mapError .number) id
    else
      (supply.readBy (unsigned width)).map (fun answer ↦ (answer.mapError .number).map Int.ofNat) id

/-- Reads one number after the other, and answers with each the number of data bytes left. -/
def readAll : List Request → Supply → List (Except RequestError Int × Nat)
  | [], _ => []
  | request :: later, supply =>
    let (answer, left) := supply.read request
    (answer, left.unread) :: readAll later left

end Supply

namespace Stream

/-- The stream without the attempts that are interrupted. -/
def uninterrupted (stream : Stream) : Stream := stream.filter fun event ↦ !event.isInterruption

/-- What reads find in the stream. -/
def supply : Stream → Supply
  | [] => ⟨[], []⟩
  | .byte b :: behind => { supply behind with data := b :: (supply behind).data }
  | .failure .interrupted _ :: behind => supply behind
  | .failure failure message :: behind =>
    ⟨[], (.ofFailure failure message, (supply behind).data) :: (supply behind).later⟩

/-! ### Events -/

@[simp]
theorem supply_interruption (message : String) (behind : Stream) :
    supply (.failure .interrupted message :: behind) = supply behind := rfl

/-- A failure that is not an interruption is the next one. -/
theorem supply_failure {failure : Failure} (hfailure : failure ≠ .interrupted) (message : String)
    (behind : Stream) :
    supply (.failure failure message :: behind) =
      ⟨[], (.ofFailure failure message, (supply behind).data) :: (supply behind).later⟩ := by
  cases failure <;> first | rfl | exact absurd rfl hfailure

theorem uninterrupted_failure {failure : Failure} (hfailure : failure ≠ .interrupted)
    (message : String) (behind : Stream) :
    uninterrupted (.failure failure message :: behind) =
      .failure failure message :: uninterrupted behind := by
  cases failure <;> first | rfl | exact absurd rfl hfailure

theorem scan_failure {α : Type} {bits : Nat} {step : (shift value : Nat) → UInt8 → Step α}
    {shift value : Nat} {failure : Failure} (hfailure : failure ≠ .interrupted) (message : String)
    (behind : Stream) :
    scan bits step shift value (.failure failure message :: behind) =
      .error (.ofFailure failure message) behind := by
  cases failure <;> first | rfl | exact absurd rfl hfailure

/-- An interruption does not show in what reads find. -/
theorem supply_uninterrupted (stream : Stream) : supply stream.uninterrupted = supply stream := by
  induction stream with
  | nil => rfl
  | cons event behind ih =>
    cases event with
    | byte b =>
      show supply (.byte b :: uninterrupted behind) = _
      rw [supply, ih, supply]
    | failure failure message =>
      by_cases hfailure : failure = .interrupted
      · subst hfailure
        exact ih
      · rw [uninterrupted_failure hfailure, supply_failure hfailure, supply_failure hfailure, ih]

/-- The data bytes that are left are those of the supply. -/
theorem unread_supply (stream : Stream) : (supply stream).unread = stream.unread := by
  induction stream with
  | nil => rfl
  | cons event behind ih =>
    cases event with
    | byte b =>
      have hcount : unread (.byte b :: behind) = unread behind + 1 :=
        List.countP_cons_of_pos rfl
      rw [hcount, ← ih]
      rfl
    | failure failure message =>
      have hcount : unread (.failure failure message :: behind) = unread behind :=
        List.countP_cons_of_neg (by simp)
      rw [hcount, ← ih]
      by_cases hfailure : failure = .interrupted
      · rw [hfailure, supply_interruption]
      · rw [supply_failure hfailure, Supply.unread, Supply.unread, List.flatMap_cons,
          List.nil_append]

/-! ### Reading -/

/-- Reading from a stream is reading from what reads find in it. -/
theorem readBy_supply {α : Type} (bits : Nat) (step : (shift value : Nat) → UInt8 → Step α)
    (shift value : Nat) (stream : Stream) :
    (supply stream).readBy (Leb128.scan bits step shift value) =
      (Reader.value (scan bits step shift value stream),
        supply (Reader.rest (scan bits step shift value stream))) := by
  induction stream generalizing shift value with
  | nil => rfl
  | cons event behind ih =>
    cases event with
    | byte b =>
      rw [scan, supply, Supply.readBy]
      simp only
      rw [Leb128.scan]
      cases hstep : step shift value b with
      | more next => exact ih (shift + 7) next
      | done answer => rfl
      | outOfRange => rfl
    | failure failure message =>
      by_cases hfailure : failure = .interrupted
      · rw [hfailure, scan, supply_interruption]
        exact ih shift value
      · rw [scan_failure hfailure, supply_failure hfailure]
        rfl

end Stream

/-- A read of a number finds the supply of the stream, and leaves the supply of what it leaves. -/
theorem Request.read_supply (request : Request) (stream : Stream) :
    (Stream.supply stream).read request =
      (Reader.value (request.read stream), Stream.supply (Reader.rest (request.read stream))) := by
  rw [Supply.read, read]
  cases Width.ofNat? request.bits with
  | none => rfl
  | some width =>
    simp only
    split
    · have hread := Stream.readBy_supply width.bits (Signed.step width.bits) 0 0 stream
      rw [Leb128.signed, hread, Reader.value_mapError, Reader.rest_mapError]
      rfl
    · have hread := Stream.readBy_supply width.bits (Unsigned.step width.bits) 0 0 stream
      rw [Leb128.unsigned, hread, Reader.value_map, Reader.rest_map, Reader.value_mapError,
        Reader.rest_mapError]
      rfl

/-- Reads in turn from a stream are reads in turn from its supply. -/
theorem Stream.readAll_supply (requests : List Request) (stream : Stream) :
    readAll requests stream = (supply stream).readAll requests := by
  induction requests generalizing stream with
  | nil => rfl
  | cons request later ih =>
    rw [readAll, Supply.readAll, Request.read_supply]
    simp only
    rw [unread_supply, ih]

/-- Interruptions do not show: with other ones, or none, or more, all numbers, errors and counts of
bytes that are left stay the same. Each number is read from the data bytes in front of the next
failure as from a byte string, with the same answer and the same bytes taken, if these are enough.
Otherwise they are gone, and so is the failure, which is told as it is unless it reports an end; the
next number is read from the data bytes behind it. -/
theorem Stream.readAll_exact (requests : List Request) (stream : Stream) :
    (∀ other : Stream, other.uninterrupted = stream.uninterrupted →
      readAll requests other = readAll requests stream) ∧
    readAll requests stream = (supply stream).readAll requests := by
  refine ⟨fun other hother ↦ ?_, readAll_supply requests stream⟩
  rw [readAll_supply, readAll_supply, ← supply_uninterrupted other, hother, supply_uninterrupted]

/-- A number that an end cuts short, a padded one, a failure in front of any group, and one more. -/
def brokenStream : Stream :=
  [.byte 0x80, .failure .interrupted "again", .byte 0x80, .failure .endOfInput "gone",
    .byte 0xe5, .failure .interrupted "again", .failure .interrupted "again", .byte 0x00,
    .failure (.named "TimedOut") "too slow", .byte 0x7f]

theorem Stream.readAll_exact_broken :
    let other := .failure .interrupted "once" :: brokenStream.uninterrupted
    uninterrupted other = brokenStream.uninterrupted ∧
    readAll [⟨false, 32⟩, ⟨false, 32⟩, ⟨true, 7⟩, ⟨true, 64⟩, ⟨false, 1⟩] other =
      [(.error (.number .unexpectedEnd), 3), (.ok 101, 1),
        (.error (.number (.source (.named "TimedOut") "too slow")), 1), (.ok (-1), 0),
        (.error (.number .unexpectedEnd), 0)] := by
  have hother : uninterrupted (.failure .interrupted "once" :: brokenStream.uninterrupted) =
      brokenStream.uninterrupted := rfl
  refine ⟨hother, ?_⟩
  rw [(readAll_exact _ brokenStream).1 _ hother, (readAll_exact _ brokenStream).2]
  rfl

end WasmMeter.Leb128
