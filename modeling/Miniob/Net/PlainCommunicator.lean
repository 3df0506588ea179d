/-
  The answer to a SELECT in the plain protocol (`PlainCommunicator::write_result` in
  src/observer/net/plain_communicator.cpp), in a session without debug texts.

  1. The header and the rows are written as they come; `go_back_size_if_error` counts their bytes.
  2. If the execution fails, that many bytes are taken back, and the state is written instead.
  3. Taking them back works exactly if they have not gone round the buffer: `write_pos_` stands behind them
     (`Responds` and `respondsAlone_iff`).  If they have, it becomes negative, and the state is copied in front of the
     memory; if they have filled the buffer, the first of them have been sent.
-/
import Miniob.Net.BufferedWriter

namespace Miniob.Net.Buffered

/-- `DEFAULT_BUFFER_SIZE`. -/
def defaultBufferSize : Nat := 1024 * 1024 * 2

/-- The text of a name or a cell; its length is an `int`. -/
structure Text where
  bytes : List UInt8
  short : bytes.length < 2 ^ 31

/-- `" | "`. -/
def delim : List UInt8 := [0x20, 0x7C, 0x20]

def newline : List UInt8 := [0x0A]

/-- `send_message_delimiter_`. -/
def sendMessageDelimiter : List UInt8 := [0]

/-- The result of a statement, as `write_result_internal` finds it. -/
structure SqlResult where
  /-- The return code, where there is nothing to execute or `open` fails. -/
  stateOnly : Option (Except RC Unit)
  /-- The names of the columns. -/
  schema : List Text
  /-- The cells that `cell_at` gives, or where it fails. -/
  rows : List (List (Except RC Text))
  /-- What `next_tuple` gives behind the rows: RECORD_EOF, or an error. -/
  fetched : Except RC Unit
  closed : Except RC Unit
  stateString : List UInt8
  strrc : Except RC Unit → List UInt8

/-! ## Writing -/

/-- The line of `write_state`, cut to its buffer. -/
def stateLine (r : SqlResult) (rc : Except RC Unit) : List UInt8 :=
  ((if r.stateString = [] then
      match rc with
      | .ok () => [0x53, 0x55, 0x43, 0x43, 0x45, 0x53, 0x53]
      | .error _ => [0x46, 0x41, 0x49, 0x4C, 0x55, 0x52, 0x45]
    else r.strrc rc ++ [0x20, 0x3E, 0x20] ++ r.stateString.takeWhile fun b => b != 0) ++ newline).take 2047

/-- The writer, and `go_back_size_if_error`. -/
structure Progress where
  writer : Writer
  goBackSize : Int

/-- Go on, unless the part before has failed. -/
def andThen (x : Except Fault (Progress × Except RC Unit))
    (f : Progress → Except Fault (Progress × Except RC Unit)) : Except Fault (Progress × Except RC Unit) :=
  x.bind fun r =>
    match r.2 with
    | .error rc => .ok (r.1, .error rc)
    | .ok () => f r.1

section

variable (script : Nat → Option Nat) (fuel : Nat)

/-- The size is counted, an `int32_t`, and the bytes are written. -/
def send (p : Progress) (data : List UInt8) : Except Fault (Progress × Except RC Unit) :=
  (p.writer.writen script fuel data).map fun r => (⟨r.1, Int.bmod (p.goBackSize + data.length) (2 ^ 32)⟩, r.2)

/-- The cells of a row, or the names in the header. -/
def writeCells : Bool → List (Except RC Text) → Progress → Except Fault (Progress × Except RC Unit)
  | _, [], p => .ok (p, .ok ())
  | first, c :: cells, p =>
    andThen (if first then .ok (p, .ok ()) else send script fuel p delim) fun p =>
      match c with
      | .error rc => .ok (p, .error rc)
      | .ok text => andThen (send script fuel p text.bytes) (writeCells false cells)

def writeHeader (schema : List Text) (p : Progress) : Except Fault (Progress × Except RC Unit) :=
  andThen (writeCells script fuel true (schema.map .ok) p) fun p =>
    if schema = [] then .ok (p, .ok ()) else send script fuel p newline

/-- `write_tuple_result`; `write_chunk_result` is the same, but its cells do not fail. -/
def writeTupleResult (fetched : Except RC Unit) :
    List (List (Except RC Text)) → Progress → Except Fault (Progress × Except RC Unit)
  | [], p => .ok (p, fetched)
  | row :: rows, p =>
    andThen (writeCells script fuel true row p) fun p =>
      andThen (send script fuel p newline) (writeTupleResult fetched rows)

/-- `write_state`; the last part of the result is `need_disconnect`. -/
def writeState (r : SqlResult) (rc : Except RC Unit) (w : Writer) : Except Fault (Writer × Except RC Unit × Bool) :=
  (w.writen script fuel (stateLine r rc)).map fun s =>
    match s.2 with
    | .error _ => (s.1, .error .ioerrWrite, true)
    | .ok () => (s.1, .ok (), false)

/-- `write_result_internal`. -/
def writeResultInternal (r : SqlResult) (w : Writer) : Except Fault (Writer × Except RC Unit × Bool) :=
  match r.stateOnly with
  | some rc => writeState script fuel r rc w
  | none =>
    (writeHeader script fuel r.schema ⟨w, 0⟩).bind fun header =>
      match header.2 with
      | .error rc => .ok (header.1.writer, .error rc, true)
      | .ok () =>
        (writeTupleResult script fuel r.fetched r.rows header.1).bind fun rows =>
          match rows.2 with
          | .error rc => writeState script fuel r (.error rc) (rows.1.writer.goBack rows.1.goBackSize).1
          | .ok () =>
            if r.schema = [] then writeState script fuel r r.closed rows.1.writer
            else .ok (rows.1.writer, r.closed, false)

/-- `write_result`. -/
def writeResult (r : SqlResult) (w : Writer) : Except Fault (Writer × Except RC Unit × Bool) :=
  (writeResultInternal script fuel r w).bind fun s =>
    if s.2.2 then (s.1.flush script fuel).map fun f => (f.1, s.2.1, true)
    else
      (s.1.writen script fuel sendMessageDelimiter).bind fun d =>
        match d.2 with
        | .error rc => .ok (d.1, .error rc, true)
        | .ok () => (d.1.flush script fuel).map fun f => (f.1, .ok (), false)

end

/-! ## The bytes before a failure -/

/-- The pieces that a row writes, and where it fails. -/
def sentCells : Bool → List (Except RC Text) → List (List UInt8) × Except RC Unit
  | _, [] => ([], .ok ())
  | first, c :: cells =>
    match c with
    | .error rc => (if first then [] else [delim], .error rc)
    | .ok text =>
      ((if first then [] else [delim]) ++ text.bytes :: (sentCells false cells).1, (sentCells false cells).2)

/-- The same for all rows. -/
def sentRows (fetched : Except RC Unit) : List (List (Except RC Text)) → List (List UInt8) × Except RC Unit
  | [] => ([], fetched)
  | row :: rows =>
    match (sentCells true row).2 with
    | .error rc => ((sentCells true row).1, .error rc)
    | .ok () => ((sentCells true row).1 ++ newline :: (sentRows fetched rows).1, (sentRows fetched rows).2)

def sentHeader (schema : List Text) : List (List UInt8) :=
  (sentCells true (schema.map .ok)).1 ++ if schema = [] then [] else [newline]

/-- All pieces that are written until the execution ends. -/
def pieces (r : SqlResult) : List (List UInt8) := sentHeader r.schema ++ (sentRows r.fetched r.rows).1

/-- How it ends. -/
def outcome (r : SqlResult) : Except RC Unit := (sentRows r.fetched r.rows).2

/-- The size of the header and the rows. -/
def writtenSize (r : SqlResult) : Nat := (pieces r).flatten.length

section Pieces

variable {script : Nat → Option Nat} {fuel : Nat}

/-- The pieces, one after the other. -/
def sendAll (script : Nat → Option Nat) (fuel : Nat) :
    List (List UInt8) → Progress → Except Fault (Progress × Except RC Unit)
  | [], p => .ok (p, .ok ())
  | data :: rest, p => andThen (send script fuel p data) (sendAll script fuel rest)

theorem andThen_ok {p : Progress} {f : Progress → Except Fault (Progress × Except RC Unit)} :
    andThen (.ok (p, .ok ())) f = f p := rfl

theorem andThen_assoc {x : Except Fault (Progress × Except RC Unit)}
    {f g : Progress → Except Fault (Progress × Except RC Unit)} :
    andThen (andThen x f) g = andThen x fun p => andThen (f p) g := by
  cases x with
  | error e => rfl
  | ok r =>
    obtain ⟨p, rc⟩ := r
    cases rc <;> rfl

theorem andThen_end (x : Except Fault (Progress × Except RC Unit)) :
    andThen x (fun p => .ok (p, .ok ())) = x := by
  cases x with
  | error e => rfl
  | ok r =>
    obtain ⟨p, rc⟩ := r
    cases rc <;> rfl

theorem sendAll_append (xs ys : List (List UInt8)) (p : Progress) :
    sendAll script fuel (xs ++ ys) p = andThen (sendAll script fuel xs p) (sendAll script fuel ys) := by
  induction xs generalizing p with
  | nil => rfl
  | cons x xs ih =>
    rw [List.cons_append, sendAll, sendAll, andThen_assoc]
    exact congrArg _ (funext ih)

/-- A row writes its pieces, up to where it fails. -/
theorem writeCells_eq (first : Bool) (cells : List (Except RC Text)) (p : Progress) :
    writeCells script fuel first cells p =
      andThen (sendAll script fuel (sentCells first cells).1 p) fun p => .ok (p, (sentCells first cells).2) := by
  induction cells generalizing first p with
  | nil => rfl
  | cons c cells ih =>
    have hdelim : (if first = true then (.ok (p, .ok ()) : Except Fault (Progress × Except RC Unit))
        else send script fuel p delim) = sendAll script fuel (if first = true then [] else [delim]) p := by
      cases first
      · exact (andThen_end _).symm
      · rfl
    rw [writeCells, hdelim]
    cases c with
    | error rc => rfl
    | ok text =>
      show _ = andThen (sendAll script fuel (_ ++ text.bytes :: _) p) _
      rw [sendAll_append, andThen_assoc]
      refine congrArg _ (funext fun p' => ?_)
      rw [sendAll, andThen_assoc]
      exact congrArg (andThen (send script fuel p' text.bytes)) (funext (ih false))

/-- The rows are a list of texts, which are sent one by one. -/
theorem writeTupleResult_eq (fetched : Except RC Unit) (rows : List (List (Except RC Text))) (p : Progress) :
    writeTupleResult script fuel fetched rows p =
      andThen (sendAll script fuel (sentRows fetched rows).1 p) fun p => .ok (p, (sentRows fetched rows).2) := by
  induction rows generalizing p with
  | nil => rfl
  | cons row rows ih =>
    rw [writeTupleResult, writeCells_eq, andThen_assoc, sentRows]
    cases (sentCells true row).2 with
    | error rc => rfl
    | ok u =>
      show _ = andThen (sendAll script fuel (_ ++ newline :: _) p) _
      rw [sendAll_append, andThen_assoc]
      refine congrArg _ (funext fun p' => ?_)
      rw [andThen_ok, sendAll, andThen_assoc]
      exact congrArg _ (funext ih)

theorem sentCells_ok (first : Bool) (schema : List Text) : (sentCells first (schema.map .ok)).2 = .ok () := by
  induction schema generalizing first with
  | nil => rfl
  | cons text schema ih => exact ih false

/-- So is the header. -/
theorem writeHeader_eq (schema : List Text) (p : Progress) :
    writeHeader script fuel schema p = sendAll script fuel (sentHeader schema) p := by
  unfold writeHeader sentHeader
  rw [writeCells_eq, andThen_assoc, sentCells_ok, sendAll_append]
  refine congrArg _ (funext fun p' => ?_)
  rw [andThen_ok]
  split
  · rfl
  · exact (andThen_end _).symm

end Pieces

/-! ## A failing SELECT -/

/-- When a request starts, everything before it has been flushed. -/
structure Ready (w : Writer) : Prop where
  good : w.ring.Good
  capacity : w.ring.capacity = defaultBufferSize
  empty : w.ring.dataSize = 0

/-- With enough fuel the request is answered by the state line and the delimiter alone. -/
def Responds (script : Nat → Option Nat) (r : SqlResult) (rc : RC) (w : Writer) : Prop :=
  ∃ fuel₀, ∀ fuel, fuel₀ ≤ fuel → ∃ w' reply, writeResult script fuel r w = .ok (w', reply) ∧
    w'.sent = w.sent ++ stateLine r (.error rc) ++ sendMessageDelimiter

section Failing

variable {script : Nat → Option Nat} {fuel : Nat} {w w' : Writer} {r : SqlResult} {rc : RC} {p : Progress}

/-- All pieces stand behind the queue, and their bytes are counted. -/
theorem sendAll_good (hscript : ∀ i, script i ≠ none) (xs : List (List UInt8)) (h : p.writer.ring.Good)
    (hcap : 2 * p.writer.ring.capacity ≤ 2 ^ 31) (hfuel : xs.flatten.length ≤ fuel) {n : Nat}
    (hcount : p.goBackSize = Int.bmod n (2 ^ 32)) :
    ∃ p', sendAll script fuel xs p = .ok (p', .ok ()) ∧ Appended p.writer p'.writer xs.flatten ∧
      p'.goBackSize = Int.bmod (n + xs.flatten.length : Nat) (2 ^ 32) := by
  induction xs generalizing p n with
  | nil => exact ⟨p, rfl, .refl h, hcount⟩
  | cons x xs ih =>
    rw [List.flatten_cons, List.length_append] at hfuel
    obtain ⟨w', hok, happ⟩ := @writen_good script p.writer x hscript fuel h hcap (by omega)
    obtain ⟨p', hok', happ', hcount'⟩ := @ih ⟨w', Int.bmod (p.goBackSize + x.length) (2 ^ 32)⟩ happ.good
      (by rw [happ.capacity]; exact hcap) (by omega) (n + x.length) (by
        show Int.bmod (p.goBackSize + x.length) (2 ^ 32) = _
        rw [hcount, Int.bmod_add_bmod, Int.natCast_add])
    refine ⟨p', ?_, ?_, ?_⟩
    · rw [sendAll, send, hok]
      exact hok'
    · rw [List.flatten_cons]
      exact happ.trans happ'
    · rw [hcount', List.flatten_cons, List.length_append, Nat.add_assoc]

/-- The request up to the failure, and what follows it. -/
theorem writeResultInternal_eq (hstate : r.stateOnly = none) (houtcome : outcome r = .error rc) {p' : Progress}
    (hpieces : sendAll script fuel (pieces r) ⟨w, 0⟩ = .ok (p', .ok ())) :
    writeResultInternal script fuel r w =
      writeState script fuel r (.error rc) (p'.writer.goBack p'.goBackSize).1 := by
  unfold pieces at hpieces
  rw [sendAll_append] at hpieces
  unfold writeResultInternal
  rw [hstate]
  dsimp only
  rw [writeHeader_eq]
  cases hheader : sendAll script fuel (sentHeader r.schema) ⟨w, 0⟩ with
  | error e =>
    rw [hheader] at hpieces
    cases hpieces
  | ok s =>
    obtain ⟨p, src⟩ := s
    rw [hheader] at hpieces
    cases src with
    | error e => cases hpieces
    | ok u =>
      rw [andThen_ok] at hpieces
      dsimp only [Except.bind]
      rw [writeTupleResult_eq, hpieces, andThen_ok]
      have houtcome : (sentRows r.fetched r.rows).2 = .error rc := houtcome
      rw [houtcome]

/-- The state line and the delimiter behind an empty queue. -/
theorem finish_good (hscript : ∀ i, script i ≠ none) (hinternal : writeResultInternal script fuel r w =
      writeState script fuel r (.error rc) w') (h : w'.ring.Good) (hcap : 2 * w'.ring.capacity ≤ 2 ^ 31)
    (hempty : w'.ring.contents = []) (hfuel : (stateLine r (.error rc)).length < fuel) :
    ∃ w'', writeResult script fuel r w = .ok (w'', .ok (), false) ∧
      w''.sent = w'.sent ++ stateLine r (.error rc) ++ sendMessageDelimiter := by
  obtain ⟨w₁, hok₁, happ₁⟩ := @writen_good script w' (stateLine r (.error rc)) hscript fuel h hcap (by omega)
  obtain ⟨w₂, hok₂, happ₂⟩ := @writen_good script w₁ sendMessageDelimiter hscript fuel happ₁.good
    (by rw [happ₁.capacity]; exact hcap) (by show 1 ≤ fuel; omega)
  have hcap₂ : w₂.ring.capacity = w'.ring.capacity := happ₂.capacity.trans happ₁.capacity
  have hlt := happ₂.good.lt
  obtain ⟨fuel', rfl⟩ : ∃ fuel', fuel = fuel' + 1 := ⟨fuel - 1, by omega⟩
  obtain ⟨w₃, frc, m, hok₃, hmoved, hfrc⟩ := @flush_good script w₂ happ₂.good (Or.inr (by omega)) fuel'
  rcases hfrc with ⟨rfl, hm⟩ | ⟨-, i, hi⟩
  · refine ⟨w₃, ?_, ?_⟩
    · unfold writeResult
      rw [hinternal, writeState, hok₁]
      dsimp only [Except.map, Except.bind]
      rw [if_neg Bool.false_ne_true, hok₂]
      dsimp only
      rw [hok₃]
    · have hbytes := happ₂.bytes
      rw [happ₁.bytes, hempty, List.append_nil] at hbytes
      rw [hmoved.sent, hm, List.take_of_length_le (by rw [RingBuffer.length_contents]), hbytes]
  · exact absurd hi (hscript i)

/-- Behind a write position in front of the memory nothing can be written. -/
theorem writen_negative {data : List UInt8} (hcap : w.ring.capacity = defaultBufferSize) (hempty : w.ring.dataSize = 0)
    (hneg : w.ring.writePos < 0) (hdata : data ≠ []) : w.writen script (fuel + 1) data = .error .outOfBounds := by
  have hbuffer : (defaultBufferSize : Int) = 2097152 := rfl
  have hremain : w.ring.remain = defaultBufferSize := by
    unfold RingBuffer.remain
    rw [hempty, hcap, Nat.sub_zero]
  have hwrite : w.ring.write data = .error .outOfBounds := by
    rw [RingBuffer.write, if_neg (by
      rw [hremain]
      rintro (heq | heq)
      · exact hdata heq
      · cases heq)]
    unfold RingBuffer.readPos
    rw [hcap, if_neg (by decide), if_neg (by omega)]
    dsimp only [Except.bind]
    rw [if_pos (Or.inl hneg)]
  rw [Writer.writen, if_neg hdata, Writer.write, hremain, if_neg (by decide), Writer.ringWrite, hwrite]
  rfl

/-- The state when the failure is met. -/
theorem pieces_good (hscript : ∀ i, script i ≠ none) (hready : Ready w) (hfuel : writtenSize r ≤ fuel) :
    ∃ p', sendAll script fuel (pieces r) ⟨w, 0⟩ = .ok (p', .ok ()) ∧ Appended w p'.writer (pieces r).flatten ∧
      p'.goBackSize = Int.bmod (writtenSize r) (2 ^ 32) := by
  obtain ⟨p', hok, happ, hcount⟩ := @sendAll_good script fuel ⟨w, 0⟩ hscript (pieces r) hready.good
    (by rw [hready.capacity]; decide) hfuel 0 rfl
  refine ⟨p', hok, happ, ?_⟩
  rw [hcount, Nat.zero_add]
  rfl

/-- The bytes have not gone round: taking them back empties the queue. -/
theorem goBack_inside {p' : Progress} (hready : Ready w) (happ : Appended w p'.writer (pieces r).flatten)
    (hcount : p'.goBackSize = Int.bmod (writtenSize r) (2 ^ 32))
    (hroom : w.ring.writePos + writtenSize r < defaultBufferSize) :
    (p'.writer.goBack p'.goBackSize).1.ring.Good ∧ (p'.writer.goBack p'.goBackSize).1.ring.contents = [] ∧
      (p'.writer.goBack p'.goBackSize).1.ring.capacity = defaultBufferSize ∧
      (p'.writer.goBack p'.goBackSize).1.sent = w.sent := by
  have hbuffer : (defaultBufferSize : Int) = 2097152 := rfl
  have hsize : (pieces r).flatten.length = writtenSize r := rfl
  have hnonneg := hready.good.nonneg
  have hfit : w.ring.dataSize + (pieces r).flatten.length ≤ w.ring.capacity := by
    rw [hready.empty, hready.capacity]
    omega
  obtain ⟨hsent, hpos⟩ := happ.room hfit
  have hdata := happ.dataSize hfit
  rw [hready.empty, Nat.zero_add, hsize] at hdata
  rw [hready.capacity, hsize, Int.emod_eq_of_lt (by omega) hroom] at hpos
  rw [hcount, Int.bmod_eq_of_le (by omega) (by omega)]
  by_cases hzero : writtenSize r = 0
  · obtain ⟨rc, hgo⟩ := @writer_goBack_refused p'.writer (writtenSize r) (Or.inl (by omega))
    rw [hgo]
    refine ⟨happ.good, ?_, happ.capacity.trans hready.capacity, hsent⟩
    exact List.length_eq_zero_iff.mp (by rw [RingBuffer.length_contents, hdata, hzero])
  · obtain ⟨hok, hgood, hcontents⟩ := @RingBuffer.goBack_good p'.writer.ring (writtenSize r) happ.good (by omega)
      (by omega) (by omega)
    have hcap : p'.writer.ring.capacity = defaultBufferSize := happ.capacity.trans hready.capacity
    have hnat : defaultBufferSize = 2097152 := rfl
    unfold Writer.goBack
    rw [if_neg (by unfold RingBuffer.remain; omega)]
    refine ⟨hgood, ?_, ?_, hsent⟩
    · show (p'.writer.ring.goBack (writtenSize r)).1.contents = []
      rw [hcontents, hdata, Int.toNat_natCast, Nat.sub_self, List.take_zero]
    · show (p'.writer.ring.goBack (writtenSize r)).1.capacity = _
      unfold RingBuffer.goBack
      split
      · exact hcap
      · split <;> exact hcap

/-- The bytes have gone round: the write position becomes negative. -/
theorem goBack_round {p' : Progress} (hready : Ready w) (happ : Appended w p'.writer (pieces r).flatten)
    (hcount : p'.goBackSize = Int.bmod (writtenSize r) (2 ^ 32)) (hsize : writtenSize r ≤ defaultBufferSize)
    (hround : (defaultBufferSize : Int) ≤ w.ring.writePos + writtenSize r) :
    (p'.writer.goBack p'.goBackSize).1.ring.writePos < 0 ∧ (p'.writer.goBack p'.goBackSize).1.ring.dataSize = 0 ∧
      (p'.writer.goBack p'.goBackSize).1.ring.capacity = defaultBufferSize := by
  have hbuffer : (defaultBufferSize : Int) = 2097152 := rfl
  have hnat : defaultBufferSize = 2097152 := rfl
  have hlen : (pieces r).flatten.length = writtenSize r := rfl
  have hnonneg := hready.good.nonneg
  have hlt := hready.good.lt
  have hfit : w.ring.dataSize + (pieces r).flatten.length ≤ w.ring.capacity := by
    rw [hready.empty, hready.capacity]
    omega
  obtain ⟨hsent, hpos⟩ := happ.room hfit
  have hdata := happ.dataSize hfit
  have hcap : p'.writer.ring.capacity = defaultBufferSize := happ.capacity.trans hready.capacity
  rw [hready.empty, Nat.zero_add, hlen] at hdata
  rw [hready.capacity] at hpos hlt
  rw [hlen, ← Int.sub_add_cancel (w.ring.writePos + _) defaultBufferSize, Int.add_emod_right,
    Int.emod_eq_of_lt (by omega) (by omega)] at hpos
  rw [hcount, Int.bmod_eq_of_le (by omega) (by omega)]
  unfold Writer.goBack RingBuffer.goBack
  rw [if_neg (by unfold RingBuffer.remain; omega), if_neg (by omega), if_neg (by omega)]
  refine ⟨?_, ?_, hcap⟩
  · show p'.writer.ring.writePos - writtenSize r < 0
    omega
  · show p'.writer.ring.dataSize - (writtenSize r : Int).toNat = 0
    omega

/-- Taking back leaves what has been sent. -/
theorem goBack_sent (w : Writer) (n : Int) : (w.goBack n).1.sent = w.sent := by
  unfold Writer.goBack
  split <;> rfl

/-- Where the ring has not come round, the rows can be taken back. -/
theorem responds_of_inside (hscript : ∀ i, script i ≠ none) (hstate : r.stateOnly = none)
    (houtcome : outcome r = .error rc) (hready : Ready w)
    (hroom : w.ring.writePos + writtenSize r < defaultBufferSize) : Responds script r rc w := by
  refine ⟨writtenSize r + (stateLine r (.error rc)).length + 1, fun fuel hfuel => ?_⟩
  obtain ⟨p', hok, happ, hcount⟩ := @pieces_good script fuel w r hscript hready (by omega)
  obtain ⟨hgood, hcontents, hcap, hsent⟩ := goBack_inside hready happ hcount hroom
  have hinternal := writeResultInternal_eq hstate houtcome hok
  obtain ⟨w'', hresult, hbytes⟩ := finish_good hscript hinternal hgood (by rw [hcap]; decide) hcontents (by omega)
  exact ⟨w'', _, hresult, by rw [hbytes, hsent]⟩

/-- Where it has, the position becomes negative. -/
theorem not_responds_of_round (hscript : ∀ i, script i ≠ none) (hstate : r.stateOnly = none)
    (houtcome : outcome r = .error rc) (hready : Ready w) (hsize : writtenSize r ≤ defaultBufferSize)
    (hround : (defaultBufferSize : Int) ≤ w.ring.writePos + writtenSize r) : ¬ Responds script r rc w := by
  rintro ⟨fuel₀, hresponds⟩
  obtain ⟨w', reply, hresult, -⟩ := hresponds (fuel₀ + writtenSize r + 1) (by omega)
  obtain ⟨p', hok, happ, hcount⟩ := @pieces_good script (fuel₀ + writtenSize r + 1) w r hscript hready (by omega)
  obtain ⟨hneg, hempty, hcap⟩ := goBack_round hready happ hcount hsize hround
  unfold writeResult at hresult
  rw [writeResultInternal_eq hstate houtcome hok, writeState] at hresult
  by_cases hline : stateLine r (.error rc) = []
  · -- then the delimiter is the first that is written
    rw [hline, Writer.writen, if_pos rfl] at hresult
    dsimp only [Except.map, Except.bind] at hresult
    have hdelim : sendMessageDelimiter ≠ [] := List.cons_ne_nil 0 []
    rw [if_neg Bool.false_ne_true, writen_negative hcap hempty hneg hdelim] at hresult
    cases hresult
  · rw [writen_negative hcap hempty hneg hline] at hresult
    cases hresult

/-- What has been sent is not taken back. -/
theorem not_responds_of_full (hscript : ∀ i, script i ≠ none) (hstate : r.stateOnly = none)
    (houtcome : outcome r = .error rc) (hready : Ready w) (hsize : defaultBufferSize < writtenSize r) :
    ¬ Responds script r rc w := by
  rintro ⟨fuel₀, hresponds⟩
  obtain ⟨w', reply, hresult, hsent⟩ := hresponds (fuel₀ + writtenSize r) (by omega)
  obtain ⟨p', hok, happ, hcount⟩ := @pieces_good script (fuel₀ + writtenSize r) w r hscript hready (by omega)
  generalize fuel₀ + writtenSize r = fuel at hresult hok
  -- more has been written than is in the buffer
  have hfirst : w.sent.length < (p'.writer.goBack p'.goBackSize).1.sent.length := by
    rw [goBack_sent]
    have hlen := congrArg List.length happ.bytes
    have hle := happ.good.size_le
    rw [happ.capacity, hready.capacity] at hle
    simp only [List.length_append, RingBuffer.length_contents, hready.empty] at hlen
    have hwritten : (pieces r).flatten.length = writtenSize r := rfl
    omega
  unfold writeResult at hresult
  rw [writeResultInternal_eq hstate houtcome hok, writeState] at hresult
  generalize (p'.writer.goBack p'.goBackSize).1 = back at hresult hfirst
  cases hline : back.writen script fuel (stateLine r (.error rc)) with
  | error e =>
    rw [hline] at hresult
    cases hresult
  | ok s =>
    obtain ⟨w₁, rc₁⟩ := s
    rcases writen_load hline with ⟨rfl, hload₁⟩ | ⟨i, hi⟩
    · rw [hline] at hresult
      dsimp only [Except.map, Except.bind] at hresult
      rw [if_neg Bool.false_ne_true] at hresult
      cases hdelim : w₁.writen script fuel sendMessageDelimiter with
      | error e =>
        rw [hdelim] at hresult
        cases hresult
      | ok s =>
        obtain ⟨w₂, rc₂⟩ := s
        rcases writen_load hdelim with ⟨rfl, hload₂⟩ | ⟨i, hi⟩
        · rw [hdelim] at hresult
          dsimp only at hresult
          cases hflush : w₂.flush script fuel with
          | error e =>
            rw [hflush] at hresult
            cases hresult
          | ok s =>
            obtain ⟨w₃, rc₃⟩ := s
            rcases flush_load hflush with ⟨hload₃, ⟨-, hdone⟩ | ⟨i, hi⟩⟩
            · rw [hflush] at hresult
              cases hresult
              have hlen := congrArg List.length hsent
              rw [List.length_append, List.length_append] at hlen
              dsimp only at hlen
              unfold load at hload₁ hload₂ hload₃
              omega
            · exact absurd hi (hscript i)
        · exact absurd hi (hscript i)
    · exact absurd hi (hscript i)

/-- A failing SELECT is answered by the state alone exactly if its bytes have not gone round the buffer. -/
theorem respondsAlone_iff (hscript : ∀ i, script i ≠ none) (hstate : r.stateOnly = none)
    (houtcome : outcome r = .error rc) (hready : Ready w) :
    Responds script r rc w ↔ w.ring.writePos + writtenSize r < defaultBufferSize := by
  constructor
  · intro h
    by_contra hround
    by_cases hsize : writtenSize r ≤ defaultBufferSize
    · exact not_responds_of_round hscript hstate houtcome hready hsize (by omega) h
    · exact not_responds_of_full hscript hstate houtcome hready (by omega) h
  · exact responds_of_inside hscript hstate houtcome hready

end Failing

/-! ## Both parts -/

/-- A failing SELECT is answered by the state alone exactly if its bytes stand in front of the write position; and in
    every run in which that holds of each `go_back`, the writer is a queue with the write position inside. -/
theorem plain_response_queue (sends : Nat → Nat) (r : SqlResult) (rc : RC) (w : Writer) (script : Nat → Option Nat)
    (fuel capacity : Nat) (ops : List Op) :
    (r.stateOnly = none → outcome r = .error rc → Ready w → (Responds (fun i => some (sends i)) r rc w ↔
      w.ring.writePos + writtenSize r < defaultBufferSize)) ∧
    (0 < capacity → (Writer.new capacity).AllMeet script (fuel + 1) ops →
      ∃ w replies, (Writer.new capacity).run script (fuel + 1) ops = .ok (w, replies) ∧ w.ring.Good ∧
        Queue.Run ⟨capacity, [], []⟩ ops replies w.queue) := by
  constructor
  · intro hstate houtcome hready
    exact respondsAlone_iff (fun i => Option.some_ne_none (sends i)) hstate houtcome hready
  · intro hcap hmeet
    exact run_good (RingBuffer.good_new hcap) ops hmeet

/-! ## A failing SELECT after other requests -/

/-- One column `id`; the first `next_tuple` fails. -/
def failingSelect : SqlResult where
  stateOnly := none
  schema := [⟨[0x69, 0x64], by decide⟩]
  rows := []
  fetched := .error (.other 1)
  closed := .ok ()
  stateString := []
  strrc _ := []

/-- The answers so far have left the write position here. -/
def usedWriter (writePos : Nat) : Writer := ⟨⟨defaultBufferSize, fun _ => 0, 0, writePos⟩, [], 0⟩

theorem ready_usedWriter {writePos : Nat} (h : writePos < defaultBufferSize) : Ready (usedWriter writePos) :=
  ⟨⟨Int.natCast_nonneg _, Int.ofNat_lt.mpr h, Nat.zero_le _⟩, rfl, rfl⟩

/-- On a new connection the header is taken back; a byte is written and taken back. -/
theorem plain_response_queue_id :
    (Responds (fun _ => some 99) failingSelect (.other 1) (usedWriter 0) ↔
      (usedWriter 0).ring.writePos + writtenSize failingSelect < defaultBufferSize) ∧
    ∃ w replies, (Writer.new 8).run (fun _ => none) 1 [.write [0x41], .goBack 1] = .ok (w, replies) ∧
      w.ring.Good ∧ Queue.Run ⟨8, [], []⟩ [.write [0x41], .goBack 1] replies w.queue := by
  obtain ⟨hresponse, hqueue⟩ := plain_response_queue (fun _ => 99) failingSelect (.other 1) (usedWriter 0)
    (fun _ => none) 0 8 [.write [0x41], .goBack 1]
  refine ⟨hresponse rfl rfl (ready_usedWriter (by decide)), hqueue (by decide) ⟨?_, ?_⟩⟩
  · show WriteFits (RingBuffer.new 8)
    unfold WriteFits RingBuffer.Fits
    decide
  · intro w' reply hstep
    refine ⟨fun _ _ => ?_, fun _ _ _ => trivial⟩
    rcases @write_good (fun _ => none) (Writer.new 8) (RingBuffer.good_new (by decide)) (by
      unfold WriteFits RingBuffer.Fits
      decide) [0x41] with ⟨w'', m, hok, hwritten⟩ | ⟨_, _, _, _, hfull, _⟩
    · rw [Writer.step, hok] at hstep
      cases hstep
      obtain rfl : m = 0 := Nat.le_zero.mp hwritten.le
      rw [hwritten.writePos]
      decide
    · cases hfull

/-- The header goes round the end of the buffer and is taken back in front of it. -/
theorem plain_response_negative : Ready (usedWriter 2097150) ∧
    ¬ Responds (fun _ => some 99) failingSelect (.other 1) (usedWriter 2097150) :=
  ⟨ready_usedWriter (by decide), not_responds_of_round (fun _ => Option.some_ne_none _) rfl rfl
    (ready_usedWriter (by decide)) (by decide) (by decide)⟩

end Miniob.Net.Buffered
