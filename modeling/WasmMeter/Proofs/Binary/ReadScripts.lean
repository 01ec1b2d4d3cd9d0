import WasmMeter.Proofs.Binary.Cursors
import WasmMeter.Proofs.Text.Utf8

/-!
# What scripts of reads take

A read takes a row of bytes from the front of what is left, which may be empty, and answers by it.
`ReadOp.Takes` lists the ways in which a read may end, with the row and the answer of each, and
`ReadOp.TakesInTurn` says the same of the reads of a script, each of which goes on where the one
before stopped. A script that is run in a region finds the bytes of the region and nothing else; one
that is run on a copy finds what is left. Neither moves the position outside.

Every script takes rows in turn (`ReadOp.exists_takesInTurn_runAll`), by induction along the nesting
of scripts. What carries it is that a position stays in its buffer (`Cursor.InBuffer`), and that a
reader of numbers is content with the row that it takes (`Reader.TakesRows`). So the rows of a
script are the front of its buffer up to the position, after any number of its reads
(`ReadOp.runAll_accounts`).
-/

set_option autoImplicit false

namespace WasmMeter

variable {α : Type}

/-! ### What a read takes -/

/-- Whether a read failed at the end of what is left. -/
def ReadFailure.AtEnd (failure : ReadFailure) : Prop :=
  failure = .decode .unexpectedEnd ∨ failure = .number (.number .unexpectedEnd)

namespace ReadOp

/-- The number of bytes that a read wants, if it is not content with fewer. -/
def demand? : ReadOp → Option Nat
  | .byte => some 1
  | .bytes count => some count
  | .word count => some count
  | .text count => some count
  | .region count _ => some count
  | _ => none

/-- The reader of a number of a width, if there is one. -/
def ofWidth (bits : Nat) (f : α → Int) (number : Leb128.Width → Reader UInt8 Leb128.Error α) :
    Reader UInt8 ReadFailure ReadAnswer :=
  match Leb128.Width.ofNat? bits with
  | some width =>
    (fun a ↦ .wideNumber (f a)) <$> (number width).mapError fun e ↦ .number (.number e)
  | none => Reader.fail (.number .width)

/-- The reader of a number, if that is what the read asks for. -/
def number? : ReadOp → Option (Reader UInt8 ReadFailure ReadAnswer)
  | .varUint32 => some ((ReadAnswer.number ·.toNat) <$> Decoder.varUint32.mapError .decode)
  | .varInt32 => some ((ReadAnswer.number ·.toInt) <$> Decoder.varInt32.mapError .decode)
  | .varInt64 => some ((ReadAnswer.wideNumber ·.toInt) <$> Decoder.varInt64.mapError .decode)
  | .varUint bits => some (ofWidth bits Int.ofNat Leb128.unsigned)
  | .varInt bits => some (ofWidth bits id Leb128.signed)
  | _ => none

mutual

/-- A read at a position takes a row of bytes, in front of what is left there, and gives an answer.
A read that demands bytes takes them all, or none if there are fewer. A text is taken even if it is
invalid. A number is read from its row alone, and is cut short only by the end. What is looked at,
and what is read from a copy, is not taken. The script of a region is run on its row. -/
inductive Takes : ReadOp → Cursor → Bytes → ReadAnswer → Prop
  | byte {cursor : Cursor} (b : UInt8) : Takes .byte cursor [b] (.number b.toNat)
  | bytes {cursor : Cursor} (row : Bytes) : Takes (.bytes row.length) cursor row (.bytes row)
  | word {cursor : Cursor} (row : Bytes) : Takes (.word row.length) cursor row (.bytes row)
  | text {cursor : Cursor} (string : String) :
    Takes (.text (Utf8.encode string).length) cursor (Utf8.encode string) (.text string)
  | invalidText {cursor : Cursor} {row : Bytes} {defect : Utf8.Defect}
      (hdefect : Utf8.decode row = .error defect) :
    Takes (.text row.length) cursor row (.failed (.decode (.invalidUtf8 defect)))
  | missing {op : ReadOp} {cursor : Cursor} {count : Nat} (hdemand : op.demand? = some count)
      (hshort : cursor.remaining < count) :
    Takes op cursor [] (.failed (.decode .unexpectedEnd))
  | number {op : ReadOp} {cursor : Cursor} {row : Bytes} {answer : ReadAnswer}
      {p : Reader UInt8 ReadFailure ReadAnswer} (hop : op.number? = some p)
      (hrow : p.UsesUp row (.ok answer)) : Takes op cursor row answer
  | badNumber {op : ReadOp} {cursor : Cursor} {row : Bytes} {failure : ReadFailure}
      {p : Reader UInt8 ReadFailure ReadAnswer} (hop : op.number? = some p)
      (hrow : p.UsesUp row (.error failure)) (hend : failure.AtEnd → row = cursor.rest) :
    Takes op cursor row (.failed failure)
  | atMost {cursor : Cursor} (count : Nat) :
    Takes (.atMost count) cursor (cursor.rest.take count) (.bytes (cursor.rest.take count))
  | peek {cursor : Cursor} (offset : Nat) :
    Takes (.peek offset) cursor [] (.peeked cursor.buffer[cursor.position + offset]?)
  | region {cursor : Cursor} {row : Bytes} {script : List ReadOp} {rows : List Bytes}
      {steps : List (ReadAnswer × Cursor)}
      (hsteps : TakesInTurn script (.start row) rows steps) :
    Takes (.region row.length script) cursor row (.nested steps)
  | copy {cursor : Cursor} {script : List ReadOp} {rows : List Bytes}
      {steps : List (ReadAnswer × Cursor)} (hsteps : TakesInTurn script cursor rows steps) :
    Takes (.copy script) cursor [] (.nested steps)

/-- The reads of a script take rows of bytes, each directly behind the one before. -/
inductive TakesInTurn : List ReadOp → Cursor → List Bytes → List (ReadAnswer × Cursor) → Prop
  | nil {cursor : Cursor} : TakesInTurn [] cursor [] []
  | cons {op : ReadOp} {later : List ReadOp} {cursor : Cursor} {row : Bytes} {rows : List Bytes}
      {answer : ReadAnswer} {steps : List (ReadAnswer × Cursor)} (hrow : row <+: cursor.rest)
      (hfirst : Takes op cursor row answer)
      (hlater : TakesInTurn later (cursor.advance row.length) rows steps) :
    TakesInTurn (op :: later) cursor (row :: rows) ((answer, cursor.advance row.length) :: steps)

end

/-! ### Numbers -/

theorem takesRows_ofWidth (bits : Nat) (f : α → Int)
    {number : Leb128.Width → Reader UInt8 Leb128.Error α}
    (h : ∀ width, (number width).TakesRows (· = .unexpectedEnd)) :
    (ofWidth bits f number).TakesRows ReadFailure.AtEnd := by
  unfold ofWidth
  cases Leb128.Width.ofNat? bits with
  | none => exact fun input ↦ ⟨[], rfl, ⟨rfl, rfl⟩, by rintro e ⟨⟩ (h | h) <;> cases h⟩
  | some width =>
    refine ((h width).mapError fun e he ↦ ?_).map _
    rcases he with he | he <;> cases he
    rfl

theorem takesRows_ofLeb128 {p : Reader UInt8 Leb128.Error α}
    (h : p.TakesRows (· = .unexpectedEnd)) :
    (p.mapError DecodeError.ofLeb128).TakesRows (· = .unexpectedEnd) :=
  h.mapError fun e he ↦ by cases e <;> first | rfl | cases he

theorem takesRows_decode {p : Decoder α} (h : p.TakesRows (· = .unexpectedEnd)) :
    (p.mapError ReadFailure.decode).TakesRows ReadFailure.AtEnd := by
  refine h.mapError fun e he ↦ ?_
  rcases he with he | he <;> cases he
  rfl

theorem takesRows_of_number? {op : ReadOp} {p : Reader UInt8 ReadFailure ReadAnswer}
    (hop : op.number? = some p) : p.TakesRows ReadFailure.AtEnd := by
  have hunsigned (width : Leb128.Width) : (Leb128.unsigned width).TakesRows (· = .unexpectedEnd) :=
    Leb128.takesRows_scan _ _ 0 0
  have hsigned (width : Leb128.Width) : (Leb128.signed width).TakesRows (· = .unexpectedEnd) :=
    Leb128.takesRows_scan _ _ 0 0
  cases op <;> cases hop
  case varUint32 =>
    exact (takesRows_decode ((takesRows_ofLeb128 (hunsigned .w32)).map UInt32.ofNat)).map _
  case varInt32 =>
    exact (takesRows_decode ((takesRows_ofLeb128 (hsigned .w32)).map Int32.ofInt)).map _
  case varInt64 =>
    exact (takesRows_decode ((takesRows_ofLeb128 (hsigned .w64)).map Int64.ofInt)).map _
  case varUint bits => exact takesRows_ofWidth bits _ hunsigned
  case varInt bits => exact takesRows_ofWidth bits _ hsigned

/-- The answer that a result stands for. -/
def answerOf : Except ReadFailure ReadAnswer → ReadAnswer
  | .ok answer => answer
  | .error failure => .failed failure

theorem ofDecoder_read (f : α → ReadAnswer) (p : Decoder α) (cursor : Cursor) :
    ReadAnswer.ofDecoder f (cursor.read p) =
      (cursor.read (f <$> p.mapError .decode)).map answerOf id := by
  simp only [Cursor.read, Reader.value_map, Reader.rest_map, Reader.value_mapError,
    Reader.rest_mapError]
  cases Reader.value (p cursor.rest) <;> rfl

theorem ofNumber_read (f : α → Int) (p : Reader UInt8 Leb128.Error α) (cursor : Cursor) :
    ReadAnswer.ofNumber f (cursor.read p) =
      (cursor.read ((fun a ↦ .wideNumber (f a)) <$> p.mapError fun e ↦ .number (.number e))).map
        answerOf id := by
  simp only [Cursor.read, Reader.value_map, Reader.rest_map, Reader.value_mapError,
    Reader.rest_mapError]
  cases Reader.value (p cursor.rest) <;> rfl

/-- A read of a number runs the reader of the number. -/
theorem run_of_number? {op : ReadOp} {p : Reader UInt8 ReadFailure ReadAnswer}
    (hop : op.number? = some p) {cursor : Cursor} (hcursor : cursor.InBuffer) :
    op.run cursor = (cursor.read p).map answerOf id := by
  cases op <;> cases hop
  case varUint32 => exact ofDecoder_read _ _ cursor
  case varInt32 => exact ofDecoder_read _ _ cursor
  case varInt64 => exact ofDecoder_read _ _ cursor
  case varUint bits =>
    rw [run, ofWidth]
    cases Leb128.Width.ofNat? bits with
    | none => rw [Cursor.read_fail hcursor]; rfl
    | some width => exact ofNumber_read _ _ cursor
  case varInt bits =>
    rw [run, ofWidth]
    cases Leb128.Width.ofNat? bits with
    | none => rw [Cursor.read_fail hcursor]; rfl
    | some width => exact ofNumber_read _ _ cursor

/-! ### What is demanded -/

theorem word_append (row behind : Bytes) :
    ∃ w : Vector UInt8 row.length, w.toList = row ∧
      Decoder.word row.length (row ++ behind) = .ok w behind := by
  obtain ⟨w, hw⟩ : ∃ w : Vector UInt8 row.length, w.toList = row :=
    ⟨⟨row.toArray, List.size_toArray⟩, rfl⟩
  refine ⟨w, hw, ?_⟩
  rw [Decoder.word, Reader.bind_apply, Decoder.bytes, Reader.exactly_append]
  simp only
  rw [Bytes.toWord?_eq_some_iff.mpr hw]
  rfl

/-- A read that demands more bytes than there are takes none. -/
theorem run_of_missing {op : ReadOp} {count : Nat} {cursor : Cursor}
    (hop : op.demand? = some count) (hshort : cursor.remaining < count)
    (hcursor : cursor.InBuffer) :
    op.run cursor = (.failed (.decode .unexpectedEnd), cursor) := by
  rw [← Cursor.length_rest] at hshort
  have hread {α : Type} {p : Decoder α} (hp : p cursor.rest = .error .unexpectedEnd cursor.rest) :
      cursor.read p = (.error .unexpectedEnd, cursor) :=
    Cursor.read_of_eq_error hcursor (List.nil_append _).symm hp
  have hbytes : Decoder.bytes count cursor.rest = .error .unexpectedEnd cursor.rest :=
    Reader.exactly_of_length_lt _ hshort
  cases op <;> cases hop
  case byte =>
    have hnil := List.eq_nil_of_length_eq_zero (Nat.lt_one_iff.mp hshort)
    rw [run, hread (by rw [hnil]; rfl)]
    rfl
  case bytes => rw [run, hread hbytes]; rfl
  case word =>
    have hword : Decoder.word count cursor.rest = .error .unexpectedEnd cursor.rest := by
      rw [Decoder.word, Reader.bind_apply, hbytes]
    rw [run, hread hword]; rfl
  case text =>
    have htext : Decoder.text count cursor.rest = .error .unexpectedEnd cursor.rest := by
      rw [Decoder.text, Reader.bind_apply, hbytes]
    rw [run, hread htext]; rfl
  case region => rw [run, hread hbytes]

theorem text_append (row behind : Bytes) :
    Decoder.text row.length (row ++ behind) =
      match Utf8.decode row with
      | .ok string => .ok string behind
      | .error defect => .error (.invalidUtf8 defect) behind := by
  rw [Decoder.text, Reader.bind_apply, Decoder.bytes, Reader.exactly_append]
  simp only
  cases Utf8.decode row <;> rfl

/-- A text is taken whether it is valid or not. -/
theorem takes_run_text {cursor : Cursor} {row behind : Bytes} (hcursor : cursor.InBuffer)
    (hrest : cursor.rest = row ++ behind) :
    (text row.length).Takes cursor row (run (.text row.length) cursor).1 ∧
      (run (.text row.length) cursor).2 = cursor.advance row.length := by
  have hread := text_append row behind
  rw [run]
  cases hdecode : Utf8.decode row with
  | ok string =>
    rw [hdecode] at hread
    rw [Cursor.read_of_eq_ok hcursor hrest hread]
    obtain rfl := Utf8.decode_eq_ok_iff.mp hdecode
    exact ⟨.text string, rfl⟩
  | error defect =>
    rw [hdecode] at hread
    rw [Cursor.read_of_eq_error hcursor hrest hread]
    exact ⟨.invalidText hdecode, rfl⟩

/-- A read that demands no more bytes than there are takes as many. The scripts of regions are
known to take rows in turn. -/
theorem takes_run_of_demand {op : ReadOp} {cursor : Cursor} {row behind : Bytes}
    (hop : op.demand? = some row.length) (hcursor : cursor.InBuffer)
    (hrest : cursor.rest = row ++ behind)
    (hregion : ∀ script, op = .region row.length script →
      ∃ rows, TakesInTurn script (.start row) rows (runAll script (.start row)).1) :
    op.Takes cursor row (op.run cursor).1 ∧ (op.run cursor).2 = cursor.advance row.length := by
  have hbytes : Decoder.bytes row.length (row ++ behind) = .ok row behind :=
    Reader.exactly_append row behind _
  cases op with
  | byte =>
    obtain ⟨b, rfl⟩ := List.length_eq_one_iff.mp (Option.some_inj.mp hop).symm
    rw [run, Cursor.read_of_eq_ok hcursor hrest rfl]
    exact ⟨.byte b, rfl⟩
  | bytes count =>
    obtain rfl := Option.some_inj.mp hop
    rw [run, Cursor.read_of_eq_ok hcursor hrest hbytes]
    exact ⟨.bytes row, rfl⟩
  | word count =>
    obtain rfl := Option.some_inj.mp hop
    obtain ⟨w, hw, hword⟩ := word_append row behind
    rw [run, Cursor.read_of_eq_ok hcursor hrest hword, ReadAnswer.ofDecoder]
    dsimp only
    rw [hw]
    exact ⟨.word row, rfl⟩
  | text count =>
    obtain rfl := Option.some_inj.mp hop
    exact takes_run_text hcursor hrest
  | region count script =>
    obtain rfl := Option.some_inj.mp hop
    obtain ⟨rows, hrows⟩ := hregion script rfl
    rw [run, Cursor.read_of_eq_ok hcursor hrest hbytes]
    exact ⟨.region hrows, rfl⟩
  | _ => cases hop

/-! ### Scripts -/

/-- A read that demands bytes takes them or fails without taking any. -/
theorem exists_takes_run_of_demand {op : ReadOp} {count : Nat} {cursor : Cursor}
    (hop : op.demand? = some count) (hcursor : cursor.InBuffer)
    (hregion : ∀ script row, op = .region count script →
      ∃ rows, TakesInTurn script (.start row) rows (runAll script (.start row)).1) :
    ∃ row, row <+: cursor.rest ∧ op.Takes cursor row (op.run cursor).1 ∧
      (op.run cursor).2 = cursor.advance row.length := by
  rcases Nat.lt_or_ge cursor.remaining count with hshort | henough
  · refine ⟨[], List.nil_prefix, ?_⟩
    rw [run_of_missing hop hshort hcursor]
    exact ⟨.missing hop hshort, rfl⟩
  · have hlength : (cursor.rest.take count).length = count := by
      rw [List.length_take, Cursor.length_rest, Nat.min_eq_left henough]
    refine ⟨cursor.rest.take count, List.take_prefix count cursor.rest, ?_⟩
    rw [← hlength] at hop hregion
    exact takes_run_of_demand hop hcursor (List.take_append_drop count _).symm
      fun script heq ↦ hregion script _ heq

/-- A number is read from a row, which is all that is left if it is cut short. -/
theorem exists_takes_run_of_number {op : ReadOp} {p : Reader UInt8 ReadFailure ReadAnswer}
    {cursor : Cursor} (hop : op.number? = some p) (hcursor : cursor.InBuffer) :
    ∃ row, row <+: cursor.rest ∧ op.Takes cursor row (op.run cursor).1 ∧
      (op.run cursor).2 = cursor.advance row.length := by
  obtain ⟨row, hrow, halone, hend⟩ := takesRows_of_number? hop cursor.rest
  have hread := Cursor.read_eq hcursor hrow
  rw [run_of_number? hop hcursor, hread]
  refine ⟨row, ⟨_, hrow⟩, ?_, rfl⟩
  cases hresult : Reader.value (p cursor.rest) with
  | ok answer => exact .number hop (hresult ▸ halone)
  | error failure =>
    refine .badNumber hop (hresult ▸ halone) fun hatEnd ↦ ?_
    rw [← hrow, hend failure hresult hatEnd, List.append_nil]

mutual

/-- A read takes a row in front of what is left. -/
theorem exists_takes_run : (op : ReadOp) → {cursor : Cursor} → cursor.InBuffer →
    ∃ row, row <+: cursor.rest ∧ op.Takes cursor row (op.run cursor).1 ∧
      (op.run cursor).2 = cursor.advance row.length
  | .byte, _, hcursor => exists_takes_run_of_demand rfl hcursor nofun
  | .bytes _, _, hcursor => exists_takes_run_of_demand rfl hcursor nofun
  | .word _, _, hcursor => exists_takes_run_of_demand rfl hcursor nofun
  | .text _, _, hcursor => exists_takes_run_of_demand rfl hcursor nofun
  | .region _ script, _, hcursor =>
    exists_takes_run_of_demand rfl hcursor fun _ row heq ↦ by
      obtain ⟨rows, hrows, -⟩ := exists_takesInTurn_runAll script (Cursor.inBuffer_start row)
      cases heq
      exact ⟨rows, hrows⟩
  | .varUint32, _, hcursor => exists_takes_run_of_number rfl hcursor
  | .varInt32, _, hcursor => exists_takes_run_of_number rfl hcursor
  | .varInt64, _, hcursor => exists_takes_run_of_number rfl hcursor
  | .varUint _, _, hcursor => exists_takes_run_of_number rfl hcursor
  | .varInt _, _, hcursor => exists_takes_run_of_number rfl hcursor
  | .atMost count, cursor, hcursor => by
    refine ⟨cursor.rest.take count, List.take_prefix count _, ?_⟩
    rw [run, Cursor.read_of_eq_ok hcursor (List.take_append_drop count _).symm (by
      rw [List.take_append_drop, Reader.atMost, List.splitAt_eq])]
    exact ⟨.atMost count, rfl⟩
  | .peek offset, cursor, _ => by
    refine ⟨[], List.nil_prefix, ?_, rfl⟩
    rw [run, Cursor.rest, List.getElem?_drop]
    exact .peek offset
  | .copy script, _, hcursor => by
    obtain ⟨rows, hrows, -⟩ := exists_takesInTurn_runAll script hcursor
    exact ⟨[], List.nil_prefix, .copy hrows, rfl⟩

/-- The reads of a script take rows in turn, and after some of the reads the position is behind the
rows of these. -/
theorem exists_takesInTurn_runAll : (script : List ReadOp) → {cursor : Cursor} →
    cursor.InBuffer → ∃ rows, TakesInTurn script cursor rows (runAll script cursor).1 ∧
      ∀ count, (rows.take count).flatten <+: cursor.rest ∧
        (runAll (script.take count) cursor).2 = cursor.advance (rows.take count).flatten.length
  | [], _, _ => by
    refine ⟨[], .nil, fun count ↦ ?_⟩
    rw [List.take_nil, List.take_nil]
    exact ⟨⟨_, rfl⟩, rfl⟩
  | op :: later, cursor, hcursor => by
    obtain ⟨row, hrow, hfirst, hbehind⟩ := exists_takes_run op hcursor
    obtain ⟨rows, hlater, hcount⟩ := exists_takesInTurn_runAll later (hcursor.advance hrow)
    have hstep : op.run cursor = ((op.run cursor).1, cursor.advance row.length) := by
      rw [← hbehind]
    refine ⟨row :: rows, ?_, fun count ↦ ?_⟩
    · rw [runAll, hstep]
      exact .cons hrow hfirst hlater
    · cases count with
      | zero => exact ⟨⟨_, rfl⟩, rfl⟩
      | succ count =>
        obtain ⟨hrows, hposition⟩ := hcount count
        obtain ⟨behind, hbehind⟩ := hrow
        rw [Cursor.rest_advance hbehind] at hrows
        rw [List.take_succ_cons, List.take_succ_cons, List.flatten_cons, runAll, hstep]
        simp only [hposition, Cursor.advance_advance, List.length_append, and_true]
        rw [← hbehind]
        exact (List.prefix_append_right_inj row).mpr hrows

end

/-- Every script takes rows in turn from the start of a buffer. After any number of its reads the
rows up to there are the front of the buffer up to the position, which is not less than before and
not past the end. The sums that this takes are sums of words of sixty-four bits, where a buffer has
no more bytes than these count: a sum that is not a word is found to be past the end. -/
theorem runAll_accounts (buffer : Bytes) (script : List ReadOp) :
    ∃ rows : List Bytes,
      TakesInTurn script (.start buffer) rows (runAll script (.start buffer)).1 ∧
      ∀ count,
        let cursor := (runAll (script.take count) (.start buffer)).2
        cursor.buffer = buffer ∧
        (rows.take count).flatten = buffer.take cursor.position ∧
        cursor.position + cursor.remaining = buffer.length ∧
        cursor.position ≤ (runAll (script.take (count + 1)) (.start buffer)).2.position ∧
        (buffer.length < UInt64.size → ∀ n : UInt64,
          cursor.end? n =
            (if n.toNat ≤ cursor.remaining then some (UInt64.ofNat (cursor.position + n.toNat))
              else none) ∧
          cursor.byteAt? n = buffer[cursor.position + n.toNat]?) := by
  have hstart : (Cursor.start buffer).InBuffer := Cursor.inBuffer_start buffer
  obtain ⟨rows, hrows, hcount⟩ := exists_takesInTurn_runAll script hstart
  refine ⟨rows, hrows, fun count ↦ ?_⟩
  obtain ⟨hfront, hposition⟩ := hcount count
  have hcursor := hstart.advance hfront
  have hlater := (hcount (count + 1)).2
  rw [hposition, hlater]
  refine ⟨rfl, ?_, hcursor.position_add_remaining, ?_, fun hbuffer n ↦ ⟨?_, ?_⟩⟩
  · show _ = buffer.take (0 + _)
    rw [Nat.zero_add]
    exact List.prefix_iff_eq_take.mp hfront
  · show 0 + (rows.take count).flatten.length ≤ 0 + (rows.take (count + 1)).flatten.length
    rw [List.take_add_one, List.flatten_append, List.length_append]
    omega
  · exact hcursor.end?_eq hbuffer n
  · exact hcursor.byteAt?_eq hbuffer n

/-- A padded number, bytes of no text, two bytes of a region, and a number that is cut short. -/
def assortedRow : Bytes := [0xe5, 0x00, 0xff, 0xfe, 0x07, 0x08, 0x80]

/-- Reads of which some fail, inside and outside of a region and of a copy. -/
def assortedScript : List ReadOp :=
  [.varUint32, .text 2, .region 9 [.byte], .region 2 [.peek 2, .byte, .bytes 7],
    .copy [.atMost 9], .word 0xffffffffffffffff, .varInt 7]

theorem runAll_accounts_assorted :
    assortedRow.length < UInt64.size ∧
    ∃ rows : List Bytes,
      TakesInTurn assortedScript (.start assortedRow) rows
        (runAll assortedScript (.start assortedRow)).1 ∧
      (rows.take 2).flatten = [0xe5, 0x00, 0xff, 0xfe] ∧
      (rows.take 6).flatten = [0xe5, 0x00, 0xff, 0xfe, 0x07, 0x08] ∧
      (runAll (assortedScript.take 6) (.start assortedRow)).2.end? 0xffffffffffffffff = none := by
  have hbuffer : assortedRow.length < UInt64.size := by decide
  obtain ⟨rows, hrows, hcount⟩ := runAll_accounts assortedRow assortedScript
  refine ⟨hbuffer, rows, hrows, (hcount 2).2.1, (hcount 6).2.1, ?_⟩
  exact ((hcount 6).2.2.2.2 hbuffer 0xffffffffffffffff).1

end ReadOp

end WasmMeter
