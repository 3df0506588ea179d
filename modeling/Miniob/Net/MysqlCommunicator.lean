/-
  The answer to a query in the MySQL protocol (`MysqlCommunicator::write_result` in
  src/observer/net/mysql_communicator.cpp).

  1. Without a result set the answer is one packet, OK or ERR.  A result set is the number of columns, their
     definitions, EOF, the rows, and EOF; without columns it is one OK packet.
  2. The loops send one packet in each step, so what a run sends is a list of payloads (`writeResult_rows`), and its
     packets are these payloads with consecutive ids (`splitPackets_after`).
  3. What fails behind `open` is written over by the next return code: the stream then ends with EOF or OK.
-/
import Miniob.Common.Related
import Miniob.Net.MysqlPackets

namespace Miniob.Net.Mysql

open Miniob.Common
open Miniob.Expr.Cast (Text noZeros)

/-- An error; SUCCESS and RECORD_EOF are none. -/
structure RC where
  value : Int
  deriving DecidableEq

/-- How the rows are fetched, one by one or in chunks. -/
inductive Rows where
  | tuples (rows : List (List (Except RC Cell)))
  | chunks (chunks : List (List (List Cell)))

/-- All rows. -/
def Rows.all : Rows → List (List (Except RC Cell))
  | .tuples rows => rows
  | .chunks parts => parts.flatten.map fun row => row.map .ok

/-- The result of a statement, as `write_result` finds it. -/
structure SqlResult where
  returnCode : Except RC Unit
  hasOperator : Bool
  opened : Except RC Unit
  columns : List Column
  rows : Rows
  /-- What `next_tuple` gives behind the rows: RECORD_EOF, or an error. -/
  fetched : Except RC Unit
  closed : Except RC Unit
  stateString : List UInt8
  strrc : Except RC Unit → Text
  short : columns.length < 2 ^ 31
  /-- Each row has a cell for each column. -/
  width : ∀ row ∈ rows.all, row.length = columns.length
  /-- A chunk without columns has no rows. -/
  chunked : ∀ chunks, rows = .chunks chunks → columns = [] → chunks.flatten = []

/-- The state alone is answered where there is nothing to execute, or `open` fails. -/
def SqlResult.state (r : SqlResult) : Option (Except RC Unit) :=
  match r.returnCode with
  | .error rc => some (.error rc)
  | .ok () =>
    if r.hasOperator then
      match r.opened with
      | .error rc => some (.error rc)
      | .ok () => none
    else some (.ok ())

/-- The state line ends before the first zero byte. -/
theorem line_ne_zero (s : Text) (t : List UInt8) :
    ∀ b ∈ (s.val ++ if t = [] then [] else [0x20, 0x3E, 0x20] ++ t.takeWhile fun b => b != 0).take 2047, b ≠ 0 := by
  intro b hb
  rcases List.mem_append.mp (List.mem_of_mem_take hb) with hb | hb
  · exact s.property b hb
  · split at hb
    · cases hb
    · rcases List.mem_append.mp hb with hb | hb
      · simp only [List.mem_cons, List.not_mem_nil, or_false] at hb
        rcases hb with rfl | rfl | rfl <;> decide
      · have hne : (b != 0) = true := @List.mem_takeWhile_imp _ (fun b => b != 0) t b hb
        exact bne_iff_ne.mp hne

/-- The line of `write_state`, cut to its buffer. -/
def SqlResult.stateLine (r : SqlResult) (rc : Except RC Unit) : Text := ⟨_, line_ne_zero (r.strrc rc) r.stateString⟩

/-! ## Writing -/

structure Conn where
  stream : List UInt8
  sequenceId : UInt8
  writes : Nat

section

-- what each of the calls of `writen` returns
variable (outcome : Nat → Except RC Unit)

/-- A packet is built in its buffer, and written with the next id. -/
def sendPacket (size : Nat) (payload : List UInt8) (c : Conn) : Except Fault (Conn × Except RC Unit) :=
  if 4 + payload.length ≤ size then
    match outcome c.writes with
    | .ok () =>
      .ok (⟨c.stream ++ (Packet.bytes ⟨c.sequenceId, payload⟩), c.sequenceId + 1, c.writes + 1⟩, .ok ())
    | .error rc => .ok (⟨c.stream, c.sequenceId + 1, c.writes + 1⟩, .error rc)
  else .error .undefined

/-- Go on, unless the part before has failed. -/
def andThen (x : Except Fault (Conn × Except RC Unit)) (f : Conn → Except Fault (Conn × Except RC Unit)) :
    Except Fault (Conn × Except RC Unit) := do
  let s ← x
  match s.2 with
  | .error rc => .ok (s.1, .error rc)
  | .ok () => f s.1

variable (capabilities : UInt32)

/-- The packet of `write_state`. -/
def sendState (line : Text) (c : Conn) : Except RC Unit → Except Fault (Conn × Except RC Unit)
  | .ok () => do
    let payload ← okPayload capabilities 0 line
    sendPacket outcome 100 payload c
  | .error rc => sendPacket outcome 1000 (errPayload capabilities rc.value line) c

/-- `write_state`; the last part of the result is `need_disconnect`. -/
def writeState (r : SqlResult) (rc : Except RC Unit) (c : Conn) : Except Fault (Conn × Except RC Unit × Bool) := do
  let s ← sendState outcome capabilities (r.stateLine rc) c rc
  match s.2 with
  | .ok () => .ok (s.1, .ok (), false)
  | .error rc => .ok (s.1, .error rc, true)

/-- One packet for each column, in their order. -/
def sendDefinitions : List Column → Conn → Except Fault (Conn × Except RC Unit)
  | [], c => .ok (c, .ok ())
  | column :: columns, c =>
    andThen (do
      let payload ← definitionPayload column
      sendPacket outcome 1024 payload c) (sendDefinitions columns)

/-- `send_column_definition`; where the EOF packet cannot be sent, that is logged only. -/
def sendColumnDefinition (columns : List Column) (c : Conn) : Except Fault (Conn × Except RC Unit) :=
  andThen (andThen (sendPacket outcome 1024 (countPayload capabilities columns.length) c)
    (sendDefinitions outcome columns)) fun c =>
      if has capabilities clientDeprecateEof then .ok (c, .ok ())
      else do
        let s ← sendPacket outcome 10 (eofPayload capabilities 0x02) c
        .ok (s.1, .ok ())

/-- `affected_rows` is an `int`. -/
def countRow (affectedRows : Nat) : Except Fault Nat :=
  if affectedRows + 1 < 2 ^ 31 then .ok (affectedRows + 1) else .error .undefined

def sendRow (row : List (Except RC Cell)) (c : Conn) : Except Fault (Conn × Except RC Unit) := do
  let payload ← rowPayload row
  sendPacket outcome rowBufferSize payload c

/-- `write_tuple_result`: the return code of a cell gives way to the one of `writen`. -/
def writeTupleResult (fetched : Except RC Unit) :
    List (List (Except RC Cell)) → Nat → Conn → Except Fault (Nat × Conn × Except RC Unit)
  | [], affectedRows, c => .ok (affectedRows, c, fetched)
  | row :: rows, affectedRows, c => do
    let affectedRows ← countRow affectedRows
    if row.isEmpty then writeTupleResult fetched rows affectedRows c
    else do
      let s ← sendRow outcome row c
      match s.2 with
      | .error rc => .ok (affectedRows, s.1, .error rc)
      | .ok () => writeTupleResult fetched rows affectedRows s.1

/-- The rows of a chunk. -/
def writeChunk : List (List Cell) → Nat → Conn → Except Fault (Nat × Conn × Except RC Unit)
  | [], affectedRows, c => .ok (affectedRows, c, .ok ())
  | row :: rows, affectedRows, c => do
    let affectedRows ← countRow affectedRows
    let s ← sendRow outcome (row.map .ok) c
    match s.2 with
    | .error rc => .ok (affectedRows, s.1, .error rc)
    | .ok () => writeChunk rows affectedRows s.1

/-- `write_chunk_result`. -/
def writeChunkResult (columnNum : Nat) (fetched : Except RC Unit) :
    List (List (List Cell)) → Nat → Conn → Except Fault (Nat × Conn × Except RC Unit)
  | [], affectedRows, c => .ok (affectedRows, c, fetched)
  | chunk :: chunks, affectedRows, c =>
    if columnNum = 0 then writeChunkResult columnNum fetched chunks affectedRows c
    else do
      let s ← writeChunk outcome chunk affectedRows c
      match s.2.2 with
      | .error rc => .ok (s.1, s.2.1, .error rc)
      | .ok () => writeChunkResult columnNum fetched chunks s.1 s.2.1

def emptyText : Text := ⟨[], noZeros rfl⟩

/-- `send_result_rows`: how the rows ended is not looked at. -/
def sendResultRows (r : SqlResult) (noColumnDef : Bool) (c : Conn) : Except Fault (Conn × Except RC Unit) := do
  let s ← match r.rows with
    | .tuples rows => writeTupleResult outcome r.fetched rows 0 c
    | .chunks chunks => writeChunkResult outcome r.columns.length r.fetched chunks 0 c
  if has capabilities clientDeprecateEof || noColumnDef then do
    let payload ← okPayload capabilities s.1 emptyText
    sendPacket outcome 100 payload s.2.1
  else sendPacket outcome 10 (eofPayload capabilities 0x22) s.2.1

/-- `write_result`: behind the rows only the return code of `close` is left. -/
def writeResult (r : SqlResult) (c : Conn) : Except Fault (Conn × Except RC Unit × Bool) :=
  match r.state with
  | some rc => writeState outcome capabilities r rc c
  | none => do
    let header ← if r.columns.isEmpty then .ok (c, .ok ()) else sendColumnDefinition outcome capabilities r.columns c
    match header.2 with
    | .error rc => .ok (header.1, .error rc, true)
    | .ok () => do
      let s ← sendResultRows outcome capabilities r r.columns.isEmpty header.1
      .ok (s.1, r.closed, false)

end

/-! ## What a connection takes that takes every packet -/

def taken : Nat → Except RC Unit := fun _ => .ok ()

/-- Some packets later. -/
def Conn.after (c : Conn) (payloads : List (List UInt8)) : Conn :=
  ⟨c.stream ++ (numbered c.sequenceId payloads).flatMap Packet.bytes, c.sequenceId + UInt8.ofNat payloads.length,
    c.writes + payloads.length⟩

theorem after_nil (c : Conn) : c.after [] = c := by
  unfold Conn.after
  rw [numbered, List.flatMap_nil, List.append_nil]
  exact congrArg (fun id => Conn.mk c.stream id c.writes) (UInt8.add_zero _)

theorem after_append (c : Conn) (xs ys : List (List UInt8)) : (c.after xs).after ys = c.after (xs ++ ys) := by
  unfold Conn.after
  rw [numbered_append, List.flatMap_append, List.append_assoc, List.length_append, UInt8.ofNat_add, UInt8.add_assoc,
    Nat.add_assoc]

/-- A packet that fits into its buffer is taken by the client. -/
theorem sendPacket_taken (size : Nat) (payload : List UInt8) (c : Conn) : sendPacket taken size payload c
    = if 4 + payload.length ≤ size then .ok (c.after [payload], .ok ()) else .error .undefined := by
  unfold sendPacket Conn.after
  split
  · show Except.ok _ = Except.ok _
    rw [numbered, numbered, List.flatMap_cons, List.flatMap_nil, List.append_nil]
    rfl
  · rfl

/-- The buffer is what limits a packet. -/
theorem sendPacket_iff {size : Nat} {payload : List UInt8} {c : Conn} {s : Conn × Except RC Unit} :
    sendPacket taken size payload c = .ok s ↔ 4 + payload.length ≤ size ∧ s = (c.after [payload], .ok ()) := by
  rw [sendPacket_taken]
  split
  · rename_i hfit
    rw [Except.ok.injEq, and_iff_right hfit, eq_comm]
  · rename_i hfit
    exact iff_of_false (fun h => by cases h) fun h => hfit h.1

/-- Where the first part cannot fail but by a fault, both parts go through. -/
theorem andThen_iff {x : Except Fault (Conn × Except RC Unit)} {f : Conn → Except Fault (Conn × Except RC Unit)}
    {s : Conn × Except RC Unit} (hx : ∀ t, x = .ok t → t.2 = .ok ()) :
    andThen x f = .ok s ↔ ∃ c, x = .ok (c, .ok ()) ∧ f c = .ok s := by
  constructor
  · intro h
    obtain ⟨⟨c, rc⟩, hok, h⟩ := ok_of_bind h
    obtain rfl : rc = .ok () := hx _ hok
    exact ⟨c, hok, h⟩
  · rintro ⟨c, hok, h⟩
    unfold andThen
    rw [bind_ok _ hok]
    exact h

/-- The packet of a definition. -/
def Defines (column : Column) (payload : List UInt8) : Prop :=
  definitionPayload column = .ok payload ∧ 4 + payload.length ≤ 1024

/-- The packet of a row. -/
def Shows (row : List (Except RC Cell)) (payload : List UInt8) : Prop :=
  rowPayload row = .ok payload ∧ 4 + payload.length ≤ rowBufferSize

/-- A definition is sent if the client would read it as that column. -/
theorem sendDefinition_iff {column : Column} {c : Conn} {s : Conn × Except RC Unit} :
    (do let payload ← definitionPayload column
        sendPacket taken 1024 payload c) = .ok s ↔ ∃ payload, Defines column payload ∧ s = (c.after [payload], .ok ()) := by
  constructor
  · intro h
    obtain ⟨payload, hpayload, h⟩ := ok_of_bind h
    obtain ⟨hfit, rfl⟩ := sendPacket_iff.mp h
    exact ⟨payload, ⟨hpayload, hfit⟩, rfl⟩
  · rintro ⟨payload, ⟨hpayload, hfit⟩, rfl⟩
    rw [bind_ok _ hpayload]
    exact sendPacket_iff.mpr ⟨hfit, rfl⟩

/-- A row is sent if it shows its cells. -/
theorem sendRow_iff {row : List (Except RC Cell)} {c : Conn} {s : Conn × Except RC Unit} :
    sendRow taken row c = .ok s ↔ ∃ payload, Shows row payload ∧ s = (c.after [payload], .ok ()) := by
  constructor
  · intro h
    obtain ⟨payload, hpayload, h⟩ := ok_of_bind h
    obtain ⟨hfit, rfl⟩ := sendPacket_iff.mp h
    exact ⟨payload, ⟨hpayload, hfit⟩, rfl⟩
  · rintro ⟨payload, ⟨hpayload, hfit⟩, rfl⟩
    unfold sendRow
    rw [bind_ok _ hpayload]
    exact sendPacket_iff.mpr ⟨hfit, rfl⟩

/-- The induction is on the columns; each of them needs its packet. -/
theorem sendDefinitions_iff {columns : List Column} {c : Conn} {s : Conn × Except RC Unit} :
    sendDefinitions taken columns c = .ok s ↔
      ∃ payloads, List.Forall₂ Defines columns payloads ∧ s = (c.after payloads, .ok ()) := by
  induction columns generalizing c with
  | nil =>
    rw [sendDefinitions, Except.ok.injEq]
    constructor
    · rintro rfl
      exact ⟨[], .nil, by rw [after_nil]⟩
    · rintro ⟨payloads, hnil, rfl⟩
      cases hnil
      rw [after_nil]
  | cons column columns ih =>
    rw [sendDefinitions, andThen_iff fun t h => by
      obtain ⟨payload, -, rfl⟩ := sendDefinition_iff.mp h
      rfl]
    constructor
    · rintro ⟨c', hfirst, hrest⟩
      obtain ⟨payload, hpayload, heq⟩ := sendDefinition_iff.mp hfirst
      obtain ⟨rfl, -⟩ := Prod.mk.inj heq
      obtain ⟨payloads, hpayloads, rfl⟩ := ih.mp hrest
      exact ⟨payload :: payloads, .cons hpayload hpayloads, by rw [after_append]; rfl⟩
    · rintro ⟨_, hall, rfl⟩
      obtain ⟨payload, payloads, hpayload, hpayloads, rfl⟩ := List.forall₂_cons_left_iff.mp hall
      exact ⟨c.after [payload], sendDefinition_iff.mpr ⟨payload, hpayload, rfl⟩,
        ih.mpr ⟨payloads, hpayloads, by rw [after_append]; rfl⟩⟩

/-! ## The rows -/

section

variable {outcome : Nat → Except RC Unit} {fetched : Except RC Unit}

/-- Rows can be written in two parts, unless the first part fails. -/
theorem writeTupleResult_append (xs ys : List (List (Except RC Cell))) (affectedRows : Nat) (c : Conn) :
    writeTupleResult outcome fetched (xs ++ ys) affectedRows c = (do
      let s ← writeTupleResult outcome (.ok ()) xs affectedRows c
      match s.2.2 with
      | .error rc => .ok (s.1, s.2.1, .error rc)
      | .ok () => writeTupleResult outcome fetched ys s.1 s.2.1) := by
  induction xs generalizing affectedRows c with
  | nil => rfl
  | cons x xs ih =>
    rw [List.cons_append, writeTupleResult, writeTupleResult, bind_assoc]
    refine congrArg _ (funext fun n => ?_)
    split
    · exact ih n c
    · rw [bind_assoc]
      refine congrArg _ (funext fun s => ?_)
      obtain ⟨c', rc⟩ := s
      cases rc with
      | error rc => rfl
      | ok => exact ih n c'

/-- A chunk is written as its rows would be, one by one. -/
theorem writeChunk_eq {rows : List (List Cell)} (hne : ∀ row ∈ rows, row ≠ []) (affectedRows : Nat) (c : Conn) :
    writeChunk outcome rows affectedRows c
      = writeTupleResult outcome (.ok ()) (rows.map fun row => row.map .ok) affectedRows c := by
  induction rows generalizing affectedRows c with
  | nil => rfl
  | cons row rows ih =>
    have hrow : (row.map Except.ok : List (Except RC Cell)).isEmpty = false := by
      rw [List.isEmpty_map, List.isEmpty_eq_false_iff]
      exact hne row List.mem_cons_self
    rw [List.map_cons, writeChunk, writeTupleResult, hrow]
    refine congrArg _ (funext fun n => congrArg _ (funext fun s => ?_))
    obtain ⟨c', rc⟩ := s
    cases rc with
    | error rc => rfl
    | ok => exact ih (fun r hr => hne r (List.mem_cons_of_mem _ hr)) n c'

/-- So are all chunks. -/
theorem writeChunkResult_eq {columnNum : Nat} (hcolumns : columnNum ≠ 0) {chunks : List (List (List Cell))}
    (hne : ∀ row ∈ chunks.flatten, row ≠ []) (affectedRows : Nat) (c : Conn) :
    writeChunkResult outcome columnNum fetched chunks affectedRows c
      = writeTupleResult outcome fetched (chunks.flatten.map fun row => row.map .ok) affectedRows c := by
  induction chunks generalizing affectedRows c with
  | nil => rfl
  | cons chunk chunks ih =>
    rw [List.flatten_cons] at hne
    rw [writeChunkResult, if_neg hcolumns, List.flatten_cons, List.map_append, writeTupleResult_append,
      writeChunk_eq fun row h => hne row (List.mem_append_left _ h)]
    refine congrArg _ (funext fun s => ?_)
    obtain ⟨n, c', rc⟩ := s
    cases rc with
    | error rc => rfl
    | ok => exact ih (fun row h => hne row (List.mem_append_right _ h)) n c'

theorem writeChunkResult_zero (chunks : List (List (List Cell))) (affectedRows : Nat) (c : Conn) :
    writeChunkResult outcome 0 fetched chunks affectedRows c = .ok (affectedRows, c, fetched) := by
  induction chunks with
  | nil => rfl
  | cons chunk chunks ih => rw [writeChunkResult, if_pos rfl, ih]

/-- Rows and chunks are sent alike. -/
theorem sendResultRows_eq (capabilities : UInt32) (r : SqlResult) (noColumnDef : Bool) (c : Conn) :
    sendResultRows outcome capabilities r noColumnDef c = (do
      let s ← writeTupleResult outcome r.fetched r.rows.all 0 c
      if has capabilities clientDeprecateEof || noColumnDef then do
        let payload ← okPayload capabilities s.1 emptyText
        sendPacket outcome 100 payload s.2.1
      else sendPacket outcome 10 (eofPayload capabilities 0x22) s.2.1) := by
  unfold sendResultRows
  have hwidth := r.width
  cases hrows : r.rows with
  | tuples rows => rfl
  | chunks parts =>
    refine congrArg (fun x => x >>= _) ?_
    by_cases hcolumns : r.columns = []
    · have hnil := r.chunked parts hrows hcolumns
      rw [hcolumns, Rows.all, hnil]
      exact writeChunkResult_zero parts 0 c
    · have hpos := List.length_pos_of_ne_nil hcolumns
      refine writeChunkResult_eq (by omega) ?_ 0 c
      intro row hrow hnil
      rw [hrows] at hwidth
      have hlen := hwidth _ (List.mem_map_of_mem hrow)
      rw [hnil] at hlen
      exact absurd hlen (by rw [List.map_nil, List.length_nil]; omega)

end

/-- The counter of rows does not go beyond an `int`. -/
theorem countRow_iff {n m : Nat} : countRow n = .ok m ↔ n + 1 < 2 ^ 31 ∧ m = n + 1 := by
  unfold countRow
  split
  · rename_i h
    rw [Except.ok.injEq, and_iff_right h, eq_comm]
  · rename_i h
    exact iff_of_false (fun heq => by cases heq) fun hlt => h hlt.1

/-- Rows with cells are sent in one packet each. -/
theorem writeTupleResult_iff (fetched : Except RC Unit) {rows : List (List (Except RC Cell))}
    (hne : ∀ row ∈ rows, row ≠ []) {affectedRows : Nat} (ha : affectedRows < 2 ^ 31) {c : Conn}
    {s : Nat × Conn × Except RC Unit} : writeTupleResult taken fetched rows affectedRows c = .ok s ↔
      affectedRows + rows.length < 2 ^ 31 ∧ ∃ payloads, List.Forall₂ Shows rows payloads ∧
        s = (affectedRows + rows.length, c.after payloads, fetched) := by
  -- the induction is on the rows that are left, for every count so far
  induction rows generalizing affectedRows c with
  | nil =>
    rw [writeTupleResult, Except.ok.injEq]
    constructor
    · rintro rfl
      exact ⟨ha, [], .nil, by rw [after_nil]; rfl⟩
    · rintro ⟨-, payloads, hnil, rfl⟩
      cases hnil
      rw [after_nil]
      rfl
  | cons row rows ih =>
    have hrow : row.isEmpty = false := List.isEmpty_eq_false_iff.mpr (hne row List.mem_cons_self)
    have hrest : ∀ r ∈ rows, r ≠ [] := fun r hr => hne r (List.mem_cons_of_mem _ hr)
    have hadd : affectedRows + 1 + rows.length = affectedRows + (row :: rows).length := by
      rw [List.length_cons]
      omega
    rw [writeTupleResult, hrow]
    constructor
    · intro h
      -- the row that is counted and sent, and then the rest
      obtain ⟨n, hn, h⟩ := ok_of_bind h
      obtain ⟨hlt, rfl⟩ := countRow_iff.mp hn
      obtain ⟨t, ht, h⟩ := ok_of_bind h
      obtain ⟨payload, hpayload, rfl⟩ := sendRow_iff.mp ht
      obtain ⟨hsum, payloads, hpayloads, rfl⟩ := (ih hrest hlt).mp h
      rw [hadd] at hsum ⊢
      exact ⟨hsum, payload :: payloads, .cons hpayload hpayloads, by rw [after_append]; rfl⟩
    -- from the payloads back to the run: the first one is this row's
    · rintro ⟨hsum, _, hall, rfl⟩
      obtain ⟨payload, payloads, hpayload, hpayloads, rfl⟩ := List.forall₂_cons_left_iff.mp hall
      have hlt : affectedRows + 1 < 2 ^ 31 := by omega
      have hsend : sendRow taken row c = .ok (c.after [payload], .ok ()) :=
        sendRow_iff.mpr ⟨payload, hpayload, rfl⟩
      rw [bind_ok _ (countRow_iff.mpr ⟨hlt, rfl⟩)]
      refine (bind_ok _ hsend).trans ((ih hrest hlt).mpr ⟨by omega, payloads, hpayloads, ?_⟩)
      rw [hadd, after_append]
      rfl

/-- Rows without cells are only counted. -/
theorem writeTupleResult_nil (fetched : Except RC Unit) {rows : List (List (Except RC Cell))}
    (hnil : ∀ row ∈ rows, row = []) {affectedRows : Nat} (ha : affectedRows < 2 ^ 31) {c : Conn}
    {s : Nat × Conn × Except RC Unit} : writeTupleResult taken fetched rows affectedRows c = .ok s ↔
      affectedRows + rows.length < 2 ^ 31 ∧ s = (affectedRows + rows.length, c, fetched) := by
  induction rows generalizing affectedRows c with
  | nil =>
    rw [writeTupleResult, Except.ok.injEq, List.length_nil, Nat.add_zero, and_iff_right ha, eq_comm]
  | cons row rows ih =>
    obtain rfl := hnil row List.mem_cons_self
    have hrest : ∀ r ∈ rows, r = [] := fun r hr => hnil r (List.mem_cons_of_mem _ hr)
    have hadd : affectedRows + 1 + rows.length = affectedRows + ([] :: rows).length := by
      rw [List.length_cons]
      omega
    rw [writeTupleResult, ← hadd]
    constructor
    · intro h
      obtain ⟨n, hn, h⟩ := ok_of_bind h
      obtain ⟨hlt, rfl⟩ := countRow_iff.mp hn
      exact (ih hrest hlt).mp h
    · rintro ⟨hsum, heq⟩
      have hlt : affectedRows + 1 < 2 ^ 31 := by omega
      exact (bind_ok _ (countRow_iff.mpr ⟨hlt, rfl⟩)).trans ((ih hrest hlt).mpr ⟨hsum, heq⟩)

/-! ## The whole answer -/

section

variable {clientFlag : UInt32} {r : SqlResult} {c : Conn} {s : Conn × Except RC Unit × Bool}

theorem length_stateLine (r : SqlResult) (rc : Except RC Unit) : (r.stateLine rc).val.length < 2 ^ 16 := by
  show (List.take 2047 _).length < _
  rw [List.length_take]
  omega

/-- Success is one packet of at most 100 bytes. -/
theorem writeState_ok : writeState taken (sessionCapabilities clientFlag) r (.ok ()) c = .ok s ↔
    ∃ payload, okPayload (sessionCapabilities clientFlag) 0 (r.stateLine (.ok ())) = .ok payload ∧
      4 + payload.length ≤ 100 ∧ s = (c.after [payload], .ok (), false) := by
  unfold writeState
  constructor
  · intro h
    obtain ⟨t, ht, h⟩ := ok_of_bind h
    obtain ⟨payload, hpayload, ht⟩ := ok_of_bind ht
    obtain ⟨hfit, rfl⟩ := sendPacket_iff.mp ht
    exact ⟨payload, hpayload, hfit, (Except.ok.inj h).symm⟩
  · rintro ⟨payload, hpayload, hfit, rfl⟩
    have hsend := (bind_ok (sendPacket taken 100 · c) hpayload).trans (sendPacket_iff.mpr ⟨hfit, rfl⟩)
    exact bind_ok _ hsend

/-- So is an error, with its own buffer. -/
theorem writeState_error {rc : RC} : writeState taken (sessionCapabilities clientFlag) r (.error rc) c = .ok s ↔
    4 + errSize (sessionCapabilities clientFlag) (r.stateLine (.error rc)) ≤ 1000 ∧
      s = (c.after [errPayload (sessionCapabilities clientFlag) rc.value (r.stateLine (.error rc))], .ok (), false) := by
  have hsize := (errPayload_spec (sessionCapabilities clientFlag) rc.value (r.stateLine (.error rc))).1
  unfold writeState
  constructor
  · intro h
    obtain ⟨t, ht, h⟩ := ok_of_bind h
    obtain ⟨hfit, rfl⟩ := sendPacket_iff.mp ht
    exact ⟨by omega, (Except.ok.inj h).symm⟩
  · rintro ⟨hfit, rfl⟩
    exact bind_ok _ (sendPacket_iff.mpr ⟨by omega, rfl⟩)

/-- Without columns an OK packet with the number of rows is all that is sent. -/
theorem writeResult_nil (hstate : r.state = none) (hcolumns : r.columns = []) :
    writeResult taken (sessionCapabilities clientFlag) r c = .ok s ↔ r.rows.all.length < 2 ^ 31 ∧
      ∃ payload, okPayload (sessionCapabilities clientFlag) r.rows.all.length emptyText = .ok payload ∧
        4 + payload.length ≤ 100 ∧ s = (c.after [payload], r.closed, false) := by
  have hnil : ∀ row ∈ r.rows.all, row = [] := by
    intro row hrow
    have hlen := r.width row hrow
    rw [hcolumns] at hlen
    exact List.eq_nil_of_length_eq_zero hlen
  unfold writeResult
  rw [hstate, hcolumns]
  dsimp only [List.isEmpty_nil, if_true]
  rw [bind_ok _ rfl]
  dsimp only
  rw [sendResultRows_eq, Bool.or_true, bind_assoc]
  constructor
  · intro h
    obtain ⟨t, ht, h⟩ := ok_of_bind h
    obtain ⟨hsum, rfl⟩ := (writeTupleResult_nil r.fetched hnil (by omega)).mp ht
    rw [Nat.zero_add] at hsum h
    obtain ⟨u, hu, h⟩ := ok_of_bind h
    obtain ⟨payload, hpayload, hu⟩ := ok_of_bind hu
    obtain ⟨hfit, rfl⟩ := sendPacket_iff.mp hu
    exact ⟨hsum, payload, hpayload, hfit, (Except.ok.inj h).symm⟩
  · rintro ⟨hsum, payload, hpayload, hfit, rfl⟩
    have hrows := (writeTupleResult_nil r.fetched hnil (c := c) (Nat.two_pow_pos 31)).mpr
      ⟨by omega, rfl⟩
    rw [Nat.zero_add] at hrows
    rw [bind_ok _ hrows]
    have hsend := (bind_ok (sendPacket taken 100 · c) hpayload).trans (sendPacket_iff.mpr ⟨hfit, rfl⟩)
    exact bind_ok _ hsend

/-- The payloads of a result set. -/
def resultSet (capabilities : UInt32) (n : Nat) (definitions rows : List (List UInt8)) : List (List UInt8) :=
  countPayload capabilities n :: (definitions ++ eofPayload capabilities 0x02 :: (rows ++ [eofPayload capabilities 0x22]))

/-- The number of columns, the definitions, and the end of them. -/
theorem sendColumnDefinition_iff {columns : List Column} (hne : columns ≠ []) (hshort : columns.length < 2 ^ 31)
    {t : Conn × Except RC Unit} : sendColumnDefinition taken (sessionCapabilities clientFlag) columns c = .ok t ↔
      ∃ definitions, List.Forall₂ Defines columns definitions ∧
        t = (c.after (countPayload (sessionCapabilities clientFlag) columns.length
          :: (definitions ++ [eofPayload (sessionCapabilities clientFlag) 0x02])), .ok ()) := by
  have hpos := List.length_pos_of_ne_nil hne
  have hcount := (countPayload_spec (sessionCapabilities clientFlag) (Nat.ne_of_gt hpos) hshort).1
  have heof := (eofPayload_spec (sessionCapabilities clientFlag) 0x02).1
  have hfirst : ∀ u, andThen (sendPacket taken 1024 (countPayload (sessionCapabilities clientFlag) columns.length) c)
      (sendDefinitions taken columns) = .ok u ↔ ∃ definitions, List.Forall₂ Defines columns definitions ∧
        u = (c.after (countPayload (sessionCapabilities clientFlag) columns.length :: definitions), .ok ()) := by
    intro u
    rw [andThen_iff fun t h => (congrArg Prod.snd (sendPacket_iff.mp h).2)]
    constructor
    · rintro ⟨c', hc', h⟩
      obtain ⟨-, heq⟩ := sendPacket_iff.mp hc'
      obtain ⟨rfl, -⟩ := Prod.mk.inj heq
      obtain ⟨definitions, hall, rfl⟩ := sendDefinitions_iff.mp h
      exact ⟨definitions, hall, by rw [after_append]; rfl⟩
    · rintro ⟨definitions, hall, rfl⟩
      exact ⟨_, sendPacket_iff.mpr ⟨by omega, rfl⟩, sendDefinitions_iff.mpr ⟨definitions, hall, by rw [after_append]; rfl⟩⟩
  unfold sendColumnDefinition
  rw [andThen_iff fun t h => by
    obtain ⟨_, -, rfl⟩ := (hfirst t).mp h
    rfl, has_clientDeprecateEof]
  constructor
  · rintro ⟨c', hc', h⟩
    obtain ⟨definitions, hall, heq⟩ := (hfirst _).mp hc'
    obtain ⟨rfl, -⟩ := Prod.mk.inj heq
    obtain ⟨u, hu, h⟩ := ok_of_bind h
    obtain ⟨-, rfl⟩ := sendPacket_iff.mp hu
    refine ⟨definitions, hall, (Except.ok.inj h).symm.trans ?_⟩
    rw [after_append]
    rfl
  · rintro ⟨definitions, hall, rfl⟩
    refine ⟨_, (hfirst _).mpr ⟨definitions, hall, rfl⟩, (bind_ok _ (sendPacket_iff.mpr ⟨by omega, rfl⟩)).trans ?_⟩
    rw [after_append]
    rfl

/-- With columns the packets of a result set are sent, however fetching it ends. -/
theorem writeResult_rows (hstate : r.state = none) (hcolumns : r.columns ≠ []) :
    writeResult taken (sessionCapabilities clientFlag) r c = .ok s ↔ r.rows.all.length < 2 ^ 31 ∧
      ∃ definitions rows, List.Forall₂ Defines r.columns definitions ∧ List.Forall₂ Shows r.rows.all rows ∧
        s = (c.after (resultSet (sessionCapabilities clientFlag) r.columns.length definitions rows), r.closed, false) := by
  have hne : ∀ row ∈ r.rows.all, row ≠ [] := by
    intro row hrow hnil
    have hlen := r.width row hrow
    rw [hnil] at hlen
    exact hcolumns (List.eq_nil_of_length_eq_zero hlen.symm)
  have heof := (eofPayload_spec (sessionCapabilities clientFlag) 0x22).1
  unfold writeResult
  rw [hstate, List.isEmpty_eq_false_iff.mpr hcolumns]
  dsimp only
  rw [if_neg Bool.false_ne_true]
  constructor
  · intro h
    obtain ⟨t, ht, h⟩ := ok_of_bind h
    obtain ⟨definitions, hdefinitions, rfl⟩ := (sendColumnDefinition_iff hcolumns r.short).mp ht
    obtain ⟨u, hu, h⟩ := ok_of_bind h
    rw [sendResultRows_eq, has_clientDeprecateEof] at hu
    obtain ⟨v, hv, hu⟩ := ok_of_bind hu
    obtain ⟨hsum, rows, hrows, rfl⟩ := (writeTupleResult_iff r.fetched hne (by omega)).mp hv
    obtain ⟨-, rfl⟩ := sendPacket_iff.mp hu
    rw [Nat.zero_add] at hsum
    refine ⟨hsum, definitions, rows, hdefinitions, hrows, (Except.ok.inj h).symm.trans ?_⟩
    dsimp only
    rw [after_append, after_append, List.cons_append, List.append_assoc, List.singleton_append]
    rfl
  · rintro ⟨hsum, definitions, rows, hdefinitions, hrows, rfl⟩
    rw [bind_ok _ ((sendColumnDefinition_iff hcolumns r.short).mpr ⟨definitions, hdefinitions, rfl⟩)]
    dsimp only
    rw [sendResultRows_eq, has_clientDeprecateEof, bind_ok _ ((writeTupleResult_iff r.fetched hne (Nat.two_pow_pos 31)).mpr
      ⟨by omega, rows, hrows, rfl⟩)]
    refine (bind_ok _ (sendPacket_iff.mpr ⟨by omega, rfl⟩)).trans ?_
    dsimp only
    rw [after_append, after_append, List.cons_append, List.append_assoc, List.singleton_append]
    rfl

end

/-! ## Reading -/

/-- What the client gets. -/
inductive Response where
  | ok (affectedRows : Nat)
  | resultSet (definitions : List Definition) (rows : List (List (Option (List UInt8))))

section

variable (capabilities : UInt32)

/-- The client reads as many definitions as it was told of. -/
def readDefinitions : Nat → List (List UInt8) → Option (List Definition × List (List UInt8))
  | 0, payloads => some ([], payloads)
  | _ + 1, [] => none
  | n + 1, payload :: payloads => do
    let definition ← readDefinition capabilities payload
    let (definitions, rest) ← readDefinitions n payloads
    some (definition :: definitions, rest)

/-- The rows up to EOF, which is the last packet. -/
def readRows (n : Nat) : List (List UInt8) → Option (List (List (Option (List UInt8))))
  | [] => none
  | payload :: payloads =>
    if isEof payload then (if payloads = [] then some [] else none)
    else do
      let row ← readRow n payload
      let rows ← readRows n payloads
      some (row :: rows)

/-- The client reads a result set: the number of columns, their definitions, an EOF, rows. -/
def readResultSet : List (List UInt8) → Option Response
  | [] => none
  | first :: payloads => do
    let n ← readCount capabilities first
    let (definitions, rest) ← readDefinitions capabilities n payloads
    match rest with
    | [] => none
    | eof :: payloads =>
      if isEof eof then (readRows n payloads).map (.resultSet definitions) else none

/-- An answer that begins with 0 is an OK packet. -/
def readResponse (payloads : List (List UInt8)) : Option Response :=
  match payloads with
  | [] => none
  | first :: rest =>
    if first.head? = some 0 then (if rest = [] then (readOk capabilities first).map .ok else none)
    else readResultSet capabilities (first :: rest)

end

/-- The values of a row; where a cell fails there is none. -/
def rowCells (row : List (Except RC Cell)) : List Cell := row.filterMap Except.toOption

/-- The answer that stands for the result. -/
def SqlResult.response (r : SqlResult) : Response :=
  match r.state with
  | some _ => .ok 0
  | none =>
    if r.columns.isEmpty then .ok r.rows.all.length
    else .resultSet (r.columns.map Column.definition) (r.rows.all.map fun row => (rowCells row).map Cell.value)

/-- A row none of whose cells fails. -/
def Whole (row : List (Except RC Cell)) : Prop := row = (rowCells row).map .ok

/-- The state is an error, or fetching or a cell fails. -/
def SqlResult.Fails (r : SqlResult) : Prop :=
  match r.state with
  | some rc => rc ≠ .ok ()
  | none => r.fetched ≠ .ok () ∨ ∃ row ∈ r.rows.all, ¬ Whole row

/-- So many it has, if it gets through. -/
theorem length_readDefinitions {capabilities : UInt32} {n : Nat} {payloads rest : List (List UInt8)}
    {definitions : List Definition} (h : readDefinitions capabilities n payloads = some (definitions, rest)) :
    definitions.length = n := by
  induction n generalizing payloads definitions rest with
  | zero =>
    obtain ⟨rfl, -⟩ := Prod.mk.inj (Option.some.inj h)
    rfl
  | succ n ih =>
    cases payloads with
    | nil => cases h
    | cons payload payloads =>
      rw [readDefinitions] at h
      obtain ⟨definition, -, h⟩ := Option.bind_eq_some_iff.mp h
      obtain ⟨⟨ds, rest'⟩, hrest, h⟩ := Option.bind_eq_some_iff.mp h
      obtain ⟨rfl, -⟩ := Prod.mk.inj (Option.some.inj h)
      exact congrArg (· + 1) (ih hrest)

/-- The definitions that were sent are read exactly if each is. -/
theorem readDefinitions_iff {capabilities : UInt32} {columns : List Column} {payloads : List (List UInt8)}
    (h : List.Forall₂ Defines columns payloads) (rest : List (List UInt8)) :
    (∃ rest', readDefinitions capabilities columns.length (payloads ++ rest)
      = some (columns.map Column.definition, rest')) ↔
    ∀ column ∈ columns, has capabilities clientProtocol41 = true ∧ 4 + definitionSize column ≤ 1024 := by
  induction h with
  | nil => exact ⟨fun _ column h => absurd h List.not_mem_nil, fun _ => ⟨rest, rfl⟩⟩
  | cons hfirst _ ih =>
    rename_i column payload columns payloads _
    have hspec := definitionPayload_spec capabilities column
    rw [List.forall_mem_cons, ← ih, ← hspec, List.cons_append, List.length_cons, readDefinitions, List.map_cons]
    constructor
    · rintro ⟨rest', h⟩
      obtain ⟨definition, hread, h⟩ := Option.bind_eq_some_iff.mp h
      obtain ⟨⟨definitions, rest''⟩, hrest, h⟩ := Option.bind_eq_some_iff.mp h
      obtain ⟨hcons, rfl⟩ := Prod.mk.inj (Option.some.inj h)
      obtain ⟨rfl, rfl⟩ := List.cons.inj hcons
      exact ⟨⟨payload, hfirst.1, hfirst.2, hread⟩, rest'', hrest⟩
    · rintro ⟨⟨payload', hstore, -, hread⟩, rest', hrest⟩
      obtain rfl := Except.ok.inj (hfirst.1.symm.trans hstore)
      rw [hread, hrest]
      exact ⟨rest', rfl⟩

/-- Nothing of the rest is read with the definitions. -/
theorem readDefinitions_rest {capabilities : UInt32} {columns : List Column} {payloads : List (List UInt8)}
    (h : List.Forall₂ Defines columns payloads) {rest rest' : List (List UInt8)} {definitions : List Definition}
    (hread : readDefinitions capabilities columns.length (payloads ++ rest) = some (definitions, rest')) :
    rest' = rest := by
  induction h generalizing definitions with
  | nil => exact (Prod.mk.inj (Option.some.inj hread)).2.symm
  | cons _ _ ih =>
    rw [List.cons_append, List.length_cons, readDefinitions] at hread
    obtain ⟨definition, -, hread⟩ := Option.bind_eq_some_iff.mp hread
    obtain ⟨⟨ds, rest''⟩, hrest, hread⟩ := Option.bind_eq_some_iff.mp hread
    obtain ⟨-, rfl⟩ := Prod.mk.inj (Option.some.inj hread)
    exact ih hrest

/-- The cells of a row come back, and its packet fits. -/
def KeptRow (row : List (Except RC Cell)) : Prop :=
  Whole row ∧ (∀ cell ∈ rowCells row, cell.Kept) ∧ 4 + rowSize (rowCells row) ≤ rowBufferSize

/-- A row is read as it was exactly if it is kept. -/
theorem readRow_iff {row : List (Except RC Cell)} {payload : List UInt8} (hwhole : Whole row) (h : Shows row payload) :
    readRow row.length payload = some ((rowCells row).map Cell.value) ↔ KeptRow row := by
  have hspec := rowPayload_spec RC (rowCells row)
  have hlen : row.length = (rowCells row).length := (congrArg List.length hwhole).trans (List.length_map _)
  rw [KeptRow, and_iff_right hwhole, ← hspec, ← hwhole, hlen]
  constructor
  · intro hread
    exact ⟨payload, h.1, h.2, hread⟩
  · rintro ⟨payload', hstore, -, hread⟩
    obtain rfl := Except.ok.inj (h.1.symm.trans hstore)
    exact hread

/-- The rows that were sent are read exactly if each is. -/
theorem readRows_iff {n : Nat} {rows : List (List (Except RC Cell))} {payloads : List (List UInt8)}
    (h : List.Forall₂ Shows rows payloads) (hwidth : ∀ row ∈ rows, row.length = n) (hwhole : ∀ row ∈ rows, Whole row)
    {eof : List UInt8} (heof : isEof eof = true) :
    readRows n (payloads ++ [eof]) = some (rows.map fun row => (rowCells row).map Cell.value) ↔
      ∀ row ∈ rows, KeptRow row := by
  induction h with
  | nil =>
    refine iff_of_true ?_ fun row h => absurd h List.not_mem_nil
    rw [List.nil_append, readRows, if_pos heof, if_pos rfl]
    rfl
  | cons hfirst _ ih =>
    rename_i row payload rows payloads _
    have hread := readRow_iff (hwhole row List.mem_cons_self) hfirst
    rw [hwidth row List.mem_cons_self] at hread
    rw [List.forall_mem_cons, ← ih (fun r hr => hwidth r (List.mem_cons_of_mem _ hr))
        (fun r hr => hwhole r (List.mem_cons_of_mem _ hr)), ← hread,
      List.cons_append, readRows, isEof_rowPayload hfirst.1, if_neg Bool.false_ne_true, List.map_cons]
    constructor
    · intro h
      obtain ⟨values, hvalues, h⟩ := Option.bind_eq_some_iff.mp h
      obtain ⟨others, hothers, h⟩ := Option.bind_eq_some_iff.mp h
      obtain ⟨rfl, rfl⟩ := List.cons.inj (Option.some.inj h)
      exact ⟨hvalues, hothers⟩
    · rintro ⟨hvalues, hothers⟩
      rw [hvalues, hothers]
      rfl

/-- The client reads the columns and rows that were sent if each of them is kept. -/
theorem readResponse_resultSet {capabilities : UInt32} {columns : List Column} {rows : List (List (Except RC Cell))}
    (hne : columns ≠ []) (hshort : columns.length < 2 ^ 31) (hwidth : ∀ row ∈ rows, row.length = columns.length)
    (hwhole : ∀ row ∈ rows, Whole row) {definitions payloads : List (List UInt8)}
    (hdefinitions : List.Forall₂ Defines columns definitions) (hrows : List.Forall₂ Shows rows payloads) :
    readResponse capabilities (resultSet capabilities columns.length definitions payloads)
      = some (.resultSet (columns.map Column.definition) (rows.map fun row => (rowCells row).map Cell.value)) ↔
    ¬ UpperHalf columns.length ∧
      (∀ column ∈ columns, has capabilities clientProtocol41 = true ∧ 4 + definitionSize column ≤ 1024) ∧
      ∀ row ∈ rows, KeptRow row := by
  have hpos := List.length_pos_of_ne_nil hne
  obtain ⟨-, hhead, -, hcount⟩ := countPayload_spec capabilities (Nat.ne_of_gt hpos) hshort
  have hfirst := (eofPayload_spec capabilities 0x02).2.1
  have hlast := (eofPayload_spec capabilities 0x22).2.1
  rw [← hcount, ← readDefinitions_iff hdefinitions (eofPayload capabilities 0x02
      :: (payloads ++ [eofPayload capabilities 0x22])), ← readRows_iff hrows hwidth hwhole hlast,
    resultSet, readResponse, if_neg hhead, readResultSet]
  constructor
  · intro h
    obtain ⟨n, hn, h⟩ := Option.bind_eq_some_iff.mp h
    obtain ⟨⟨ds, rest⟩, hds, h⟩ := Option.bind_eq_some_iff.mp h
    cases rest with
    | nil => cases h
    | cons eof rest =>
      dsimp only at h
      split at h
      · obtain ⟨values, hvalues, h⟩ := Option.map_eq_some_iff.mp h
        obtain ⟨rfl, rfl⟩ := Response.resultSet.inj h
        -- as many definitions are read as the count says, so it is the number of columns
        have hlen := length_readDefinitions hds
        rw [List.length_map] at hlen
        subst hlen
        obtain ⟨rfl, rfl⟩ := List.cons.inj (readDefinitions_rest hdefinitions hds)
        exact ⟨hn, ⟨_, hds⟩, hvalues⟩
      · cases h
  · rintro ⟨hn, ⟨rest, hds⟩, hvalues⟩
    obtain rfl := readDefinitions_rest hdefinitions hds
    rw [hn]
    show (readDefinitions capabilities columns.length _).bind _ = _
    rw [hds]
    dsimp only [Option.bind_some]
    rw [if_pos hfirst, hvalues]
    rfl

/-! ## The stream -/

/-- Of a connection that takes every packet the stream splits into packets with consecutive ids.  The last of them is
    an ERR packet where the execution fails; else the packets are the result. -/
def Answers (clientFlag : UInt32) (start : UInt8) (r : SqlResult) : Prop :=
  ∃ s, writeResult taken (sessionCapabilities clientFlag) r ⟨[], start, 0⟩ = .ok s ∧
    ∃ packets, splitPackets s.1.stream.length s.1.stream = some packets ∧ Consecutive start packets ∧
      (r.Fails → ∃ p, packets.getLast? = some p ∧ isErr p.payload = true) ∧
      (¬ r.Fails → readResponse (sessionCapabilities clientFlag) (packets.map Packet.payload) = some r.response)

/-- The state fits into its packet; or nothing fails, and the number of the rows or columns, the definitions and the
    rows come back. -/
def Sendable (capabilities : UInt32) (r : SqlResult) : Prop :=
  match r.state with
  | some (.ok ()) => 4 + okSize capabilities 0 (r.stateLine (.ok ())) ≤ 100
  | some (.error rc) => 4 + errSize capabilities (r.stateLine (.error rc)) ≤ 1000
  | none => r.fetched = .ok () ∧ r.rows.all.length < 2 ^ 31 ∧
    if r.columns.isEmpty then ¬ UpperHalf r.rows.all.length
    else ¬ UpperHalf r.columns.length ∧
      (∀ column ∈ r.columns, has capabilities clientProtocol41 = true ∧ 4 + definitionSize column ≤ 1024) ∧
      ∀ row ∈ r.rows.all, KeptRow row

theorem length_le_bytes (packets : List Packet) : packets.length ≤ (packets.flatMap Packet.bytes).length := by
  induction packets with
  | nil => exact Nat.le_refl 0
  | cons p packets ih =>
    rw [List.flatMap_cons, List.length_append, List.length_cons, Packet.bytes, List.length_append, List.length_cons]
    omega

/-- The stream that some payloads make. -/
theorem splitPackets_after (start : UInt8) {payloads : List (List UInt8)} (h : ∀ p ∈ payloads, p.length < 2 ^ 24) :
    splitPackets ((Conn.after ⟨[], start, 0⟩ payloads).stream.length) (Conn.after ⟨[], start, 0⟩ payloads).stream
      = some (numbered start payloads) := by
  have hstream : (Conn.after ⟨[], start, 0⟩ payloads).stream = (numbered start payloads).flatMap Packet.bytes :=
    List.nil_append _
  rw [hstream]
  refine splitPackets_bytes ?_ (length_le_bytes _)
  intro p hp
  refine h p.payload ?_
  rw [← payload_numbered start payloads]
  exact List.mem_map_of_mem hp

/-- The answer, by the payloads that are sent. -/
theorem answers_iff {clientFlag : UInt32} {start : UInt8} {r : SqlResult} (P : List (List UInt8) → Prop)
    (reached : List (List UInt8) → Conn × Except RC Unit × Bool)
    (hreached : ∀ payloads, (reached payloads).1 = Conn.after ⟨[], start, 0⟩ payloads)
    (hrun : ∀ s, writeResult taken (sessionCapabilities clientFlag) r ⟨[], start, 0⟩ = .ok s ↔
      ∃ payloads, P payloads ∧ s = reached payloads)
    (hshort : ∀ payloads, P payloads → ∀ p ∈ payloads, p.length < 2 ^ 24) :
    Answers clientFlag start r ↔ ∃ payloads, P payloads ∧
      (r.Fails → ∃ p, payloads.getLast? = some p ∧ isErr p = true) ∧
      (¬ r.Fails → readResponse (sessionCapabilities clientFlag) payloads = some r.response) := by
  have hlast (payloads : List (List UInt8)) : (∃ p, (numbered start payloads).getLast? = some p ∧ isErr p.payload = true) ↔
      ∃ p, payloads.getLast? = some p ∧ isErr p = true := by
    rw [← payload_numbered start payloads, List.getLast?_map, payload_numbered]
    cases (numbered start payloads).getLast? with
    | none => exact iff_of_false (fun ⟨_, h, _⟩ => by cases h) fun ⟨_, h, _⟩ => by cases h
    | some p =>
      constructor
      · rintro ⟨q, hq, herr⟩
        obtain rfl := Option.some.inj hq
        exact ⟨p.payload, rfl, herr⟩
      · rintro ⟨q, hq, herr⟩
        obtain rfl := Option.some.inj hq
        exact ⟨p, rfl, herr⟩
  unfold Answers
  constructor
  · rintro ⟨s, hs, packets, hsplit, -, hfails, hreads⟩
    obtain ⟨payloads, hP, rfl⟩ := (hrun s).mp hs
    rw [hreached, splitPackets_after start (hshort payloads hP)] at hsplit
    obtain rfl := Option.some.inj hsplit
    rw [payload_numbered] at hreads
    exact ⟨payloads, hP, fun h => (hlast payloads).mp (hfails h), hreads⟩
  · rintro ⟨payloads, hP, hfails, hreads⟩
    refine ⟨_, (hrun _).mpr ⟨payloads, hP, rfl⟩, numbered start payloads, ?_, consecutive_numbered start payloads,
      fun h => (hlast payloads).mpr (hfails h), ?_⟩
    · rw [hreached]
      exact splitPackets_after start (hshort payloads hP)
    · rw [payload_numbered]
      exact hreads

section

variable {clientFlag : UInt32} {start : UInt8} {r : SqlResult}

/-- The status takes at most four bytes. -/
theorem length_statusBytes_le (capabilities : UInt32) : (statusBytes capabilities).length ≤ 4 := by
  unfold statusBytes
  split
  · exact Nat.le_refl 4
  · split
    · exact Nat.le_add_right 2 2
    · exact Nat.zero_le 4

/-- Without a text the packet is small. -/
theorem okSize_emptyText_le (capabilities : UInt32) (n : Nat) : okSize capabilities n emptyText ≤ 16 := by
  have hstatus := length_statusBytes_le capabilities
  have hn := lenencSize_le n
  have hempty : lenencStringSize emptyText = 1 := rfl
  unfold okSize
  rw [hempty]
  split <;> omega

/-- An OK packet is not an ERR packet. -/
theorem not_isErr_of_head {payload : List UInt8} (h : payload.head? = some 0) : isErr payload = false := by
  unfold isErr
  rw [h]
  rfl

/-- A statement without rows that has gone well. -/
theorem answers_state_ok (hstate : r.state = some (.ok ())) :
    Answers clientFlag start r ↔ Sendable (sessionCapabilities clientFlag) r := by
  obtain ⟨payload, hpayload, hlen, hhead, hread⟩ := okPayload_spec (sessionCapabilities clientFlag) (r.stateLine (.ok ()))
    (Nat.two_pow_pos 31) (length_stateLine r (.ok ()))
  have hfails : ¬ r.Fails := by
    unfold SqlResult.Fails
    rw [hstate]
    exact fun h => h rfl
  rw [answers_iff (fun payloads => payloads = [payload] ∧ 4 + payload.length ≤ 100)
    (fun payloads => (Conn.after ⟨[], start, 0⟩ payloads, .ok (), false)) (fun _ => rfl)]
  · unfold Sendable SqlResult.response
    rw [hstate, ← hlen]
    constructor
    · rintro ⟨_, ⟨rfl, hfit⟩, -⟩
      exact hfit
    · intro hfit
      refine ⟨_, ⟨rfl, hfit⟩, fun h => absurd h hfails, fun _ => ?_⟩
      rw [readResponse, if_pos hhead, if_pos rfl, hread.mpr (by decide)]
      rfl
  · intro s
    unfold writeResult
    rw [hstate]
    dsimp only
    rw [writeState_ok, hpayload]
    constructor
    · rintro ⟨_, heq, hfit, rfl⟩
      obtain rfl := Except.ok.inj heq
      exact ⟨_, ⟨rfl, hfit⟩, rfl⟩
    · rintro ⟨_, ⟨rfl, hfit⟩, rfl⟩
      exact ⟨_, rfl, hfit, rfl⟩
  · rintro _ ⟨rfl, hfit⟩ p hp
    obtain rfl := List.mem_singleton.mp hp
    omega

/-- A statement that has failed. -/
theorem answers_state_error {rc : RC} (hstate : r.state = some (.error rc)) :
    Answers clientFlag start r ↔ Sendable (sessionCapabilities clientFlag) r := by
  obtain ⟨hsize, herr⟩ := errPayload_spec (sessionCapabilities clientFlag) rc.value (r.stateLine (.error rc))
  have hfails : r.Fails := by
    unfold SqlResult.Fails
    rw [hstate]
    exact fun h => by cases h
  rw [answers_iff (fun payloads =>
      payloads = [errPayload (sessionCapabilities clientFlag) rc.value (r.stateLine (.error rc))] ∧
        4 + errSize (sessionCapabilities clientFlag) (r.stateLine (.error rc)) ≤ 1000)
    (fun payloads => (Conn.after ⟨[], start, 0⟩ payloads, .ok (), false)) (fun _ => rfl)]
  · unfold Sendable
    rw [hstate]
    constructor
    · rintro ⟨_, ⟨rfl, hfit⟩, -⟩
      exact hfit
    · intro hfit
      exact ⟨_, ⟨rfl, hfit⟩, fun _ => ⟨_, rfl, herr⟩, fun h => absurd hfails h⟩
  · intro s
    unfold writeResult
    rw [hstate]
    dsimp only
    rw [writeState_error]
    constructor
    · rintro ⟨hfit, rfl⟩
      exact ⟨_, ⟨rfl, hfit⟩, rfl⟩
    · rintro ⟨_, ⟨rfl, hfit⟩, rfl⟩
      exact ⟨hfit, rfl⟩
  · rintro _ ⟨rfl, hfit⟩ p hp
    obtain rfl := List.mem_singleton.mp hp
    omega

/-- What is left to hold where a result is sent: nothing fails. -/
theorem not_fails_iff (hstate : r.state = none) : ¬ r.Fails ↔ r.fetched = .ok () ∧ ∀ row ∈ r.rows.all, Whole row := by
  unfold SqlResult.Fails
  rw [hstate]
  dsimp only
  rw [not_or, not_not]
  refine and_congr_right fun _ => ?_
  constructor
  · intro h row hrow
    by_contra hwhole
    exact h ⟨row, hrow, hwhole⟩
  · rintro h ⟨row, hrow, hwhole⟩
    exact hwhole (h row hrow)

/-- A statement that gives no columns answers with the number of rows. -/
theorem answers_nil (hstate : r.state = none) (hcolumns : r.columns = []) :
    Answers clientFlag start r ↔ Sendable (sessionCapabilities clientFlag) r := by
  -- without columns a row has no cell, so no cell of it can fail
  have hwhole : ∀ row ∈ r.rows.all, Whole row := by
    intro row hrow
    have hlen := r.width row hrow
    rw [hcolumns] at hlen
    rw [List.eq_nil_of_length_eq_zero hlen]
    rfl
  rw [answers_iff (fun payloads => r.rows.all.length < 2 ^ 31 ∧ ∃ payload, payloads = [payload] ∧
      okPayload (sessionCapabilities clientFlag) r.rows.all.length emptyText = .ok payload ∧ 4 + payload.length ≤ 100)
    (fun payloads => (Conn.after ⟨[], start, 0⟩ payloads, r.closed, false)) (fun _ => rfl)]
  · unfold Sendable SqlResult.response
    rw [hstate, hcolumns]
    dsimp only [List.isEmpty_nil, if_true]
    constructor
    -- the answer is one OK packet with the number of rows
    · rintro ⟨_, ⟨hsum, payload, rfl, hpayload, -⟩, hfails, hreads⟩
      obtain ⟨_, hsame, -, hhead, hread⟩ :=
        okPayload_spec (sessionCapabilities clientFlag) emptyText hsum (by decide)
      obtain rfl := Except.ok.inj (hpayload.symm.trans hsame)
      -- an OK packet is not an error, so the statement has not failed
      have hnot : ¬ r.Fails := by
        intro h
        obtain ⟨p, hp, herr⟩ := hfails h
        have hp : payload = p := Option.some.inj hp
        rw [← hp, not_isErr_of_head hhead] at herr
        cases herr
      have hresponse := hreads hnot
      rw [readResponse, if_pos hhead, if_pos rfl] at hresponse
      obtain ⟨n, hn, heq⟩ := Option.map_eq_some_iff.mp hresponse
      obtain rfl := Response.ok.inj heq
      exact ⟨((not_fails_iff hstate).mp hnot).1, hsum, hread.mp hn⟩
    · rintro ⟨hfetched, hsum, hhalf⟩
      obtain ⟨payload, hpayload, hlen, hhead, hread⟩ :=
        okPayload_spec (sessionCapabilities clientFlag) emptyText hsum (by decide)
      have hsmall := okSize_emptyText_le (sessionCapabilities clientFlag) r.rows.all.length
      have hnot : ¬ r.Fails := (not_fails_iff hstate).mpr ⟨hfetched, hwhole⟩
      refine ⟨[payload], ⟨hsum, payload, rfl, hpayload, by omega⟩, fun h => absurd h hnot, fun _ => ?_⟩
      rw [readResponse, if_pos hhead, if_pos rfl, hread.mpr hhalf]
      rfl
  · intro s
    rw [writeResult_nil hstate hcolumns]
    constructor
    -- what the communicator writes here is this one packet
    · rintro ⟨hsum, payload, hpayload, hfit, rfl⟩
      exact ⟨_, ⟨hsum, payload, rfl, hpayload, hfit⟩, rfl⟩
    · rintro ⟨_, ⟨hsum, payload, rfl, hpayload, hfit⟩, rfl⟩
      exact ⟨hsum, payload, hpayload, hfit, rfl⟩
  · rintro _ ⟨-, payload, rfl, -, hfit⟩ p hp
    obtain rfl := List.mem_singleton.mp hp
    omega

/-- The packets of a result set that were sent are short enough for their headers. -/
theorem length_lt_of_resultSet {capabilities : UInt32} (hcolumns : r.columns ≠ [])
    {definitions rows : List (List UInt8)} (hdefinitions : List.Forall₂ Defines r.columns definitions)
    (hrows : List.Forall₂ Shows r.rows.all rows) :
    ∀ p ∈ resultSet capabilities r.columns.length definitions rows, p.length < 2 ^ 24 := by
  have hpos := List.length_pos_of_ne_nil hcolumns
  have hcount := (countPayload_spec capabilities (Nat.ne_of_gt hpos) r.short).1
  have hfirst := (eofPayload_spec capabilities 0x02).1
  have hlast := (eofPayload_spec capabilities 0x22).1
  intro p hp
  unfold resultSet at hp
  rcases List.mem_cons.mp hp with rfl | hp
  · omega
  · rcases List.mem_append.mp hp with hp | hp
    · obtain ⟨column, -, -, hfit⟩ := exists_of_forall₂ hdefinitions p hp
      omega
    · rcases List.mem_cons.mp hp with rfl | hp
      · omega
      · rcases List.mem_append.mp hp with hp | hp
        · obtain ⟨row, -, -, hfit⟩ := exists_of_forall₂ hrows p hp
          unfold rowBufferSize at hfit
          omega
        · obtain rfl := List.mem_singleton.mp hp
          omega

/-- A result set ends with its EOF. -/
theorem getLast?_resultSet (capabilities : UInt32) (n : Nat) (definitions rows : List (List UInt8)) :
    (resultSet capabilities n definitions rows).getLast? = some (eofPayload capabilities 0x22) := by
  have h : resultSet capabilities n definitions rows = (countPayload capabilities n
      :: (definitions ++ eofPayload capabilities 0x02 :: rows)) ++ [eofPayload capabilities 0x22] := by
    rw [List.cons_append, List.append_assoc, List.cons_append]
    rfl
  rw [h, List.getLast?_append]
  rfl

/-- A statement with rows: every packet has to fit and to be read. -/
theorem answers_rows (hstate : r.state = none) (hcolumns : r.columns ≠ []) :
    Answers clientFlag start r ↔ Sendable (sessionCapabilities clientFlag) r := by
  rw [answers_iff (fun payloads => r.rows.all.length < 2 ^ 31 ∧ ∃ definitions rows,
      payloads = resultSet (sessionCapabilities clientFlag) r.columns.length definitions rows ∧
        List.Forall₂ Defines r.columns definitions ∧ List.Forall₂ Shows r.rows.all rows)
    (fun payloads => (Conn.after ⟨[], start, 0⟩ payloads, r.closed, false)) (fun _ => rfl)]
  · unfold Sendable SqlResult.response
    rw [hstate, List.isEmpty_eq_false_iff.mpr hcolumns]
    dsimp only
    rw [if_neg Bool.false_ne_true, if_neg Bool.false_ne_true]
    constructor
    · rintro ⟨_, ⟨hsum, definitions, rows, rfl, hdefinitions, hrows⟩, hfails, hreads⟩
      -- the last packet is EOF whatever has happened
      have hnot : ¬ r.Fails := by
        intro h
        obtain ⟨p, hp, herr⟩ := hfails h
        rw [getLast?_resultSet] at hp
        obtain rfl := Option.some.inj hp
        rw [(eofPayload_spec (sessionCapabilities clientFlag) 0x22).2.2] at herr
        cases herr
      obtain ⟨hfetched, hwhole⟩ := (not_fails_iff hstate).mp hnot
      exact ⟨hfetched, hsum,
        (readResponse_resultSet hcolumns r.short r.width hwhole hdefinitions hrows).mp (hreads hnot)⟩
    · rintro ⟨hfetched, hsum, hhalf, hcolumn, hrow⟩
      have hwhole : ∀ row ∈ r.rows.all, Whole row := fun row h => (hrow row h).1
      have hnot : ¬ r.Fails := (not_fails_iff hstate).mpr ⟨hfetched, hwhole⟩
      obtain ⟨definitions, hdefinitions⟩ : ∃ definitions, List.Forall₂ Defines r.columns definitions := by
        apply forall₂_of_exists
        intro column h
        obtain ⟨payload, hstore, hfit, -⟩ := (definitionPayload_spec _ column).mpr (hcolumn column h)
        exact ⟨payload, hstore, hfit⟩
      obtain ⟨rows, hrows⟩ : ∃ rows, List.Forall₂ Shows r.rows.all rows := by
        apply forall₂_of_exists
        intro row h
        obtain ⟨hwhole, hkept⟩ := hrow row h
        obtain ⟨payload, hstore, hfit, -⟩ := (rowPayload_spec RC (rowCells row)).mpr hkept
        rw [← hwhole] at hstore
        exact ⟨payload, hstore, hfit⟩
      exact ⟨_, ⟨hsum, definitions, rows, rfl, hdefinitions, hrows⟩, fun h => absurd h hnot, fun _ =>
        (readResponse_resultSet hcolumns r.short r.width hwhole hdefinitions hrows).mpr ⟨hhalf, hcolumn, hrow⟩⟩
  · intro s
    rw [writeResult_rows hstate hcolumns]
    constructor
    · rintro ⟨hsum, definitions, rows, hdefinitions, hrows, rfl⟩
      exact ⟨_, ⟨hsum, definitions, rows, rfl, hdefinitions, hrows⟩, rfl⟩
    · rintro ⟨_, ⟨hsum, definitions, rows, rfl, hdefinitions, hrows⟩, rfl⟩
      exact ⟨hsum, definitions, rows, hdefinitions, hrows, rfl⟩
  · rintro _ ⟨-, definitions, rows, rfl, hdefinitions, hrows⟩
    exact length_lt_of_resultSet hcolumns hdefinitions hrows

end

/-- **The answers to queries.**  For every result and every client the stream is what the protocol makes of the result
    exactly where it can be sent. -/
theorem result_set_iff (clientFlag : UInt32) (start : UInt8) (r : SqlResult) :
    Answers clientFlag start r ↔ Sendable (sessionCapabilities clientFlag) r := by
  cases hstate : r.state with
  | some rc =>
    cases rc with
    | ok => exact answers_state_ok hstate
    | error rc => exact answers_state_error hstate
  | none =>
    by_cases hcolumns : r.columns = []
    · exact answers_nil hstate hcolumns
    · exact answers_rows hstate hcolumns

/-- One column `c`, and one row with NULL. -/
def nullResult : SqlResult where
  returnCode := .ok ()
  hasOperator := true
  opened := .ok ()
  columns := [⟨⟨[0x74], noZeros rfl⟩, ⟨[0x63], noZeros rfl⟩⟩]
  rows := .tuples [[.ok .null]]
  fetched := .ok ()
  closed := .ok ()
  stateString := []
  strrc := fun _ => emptyText
  short := by decide
  width := by decide
  chunked := by
    intro chunks h
    cases h

/-- NULL arrives as the text `null`. -/
theorem result_set_null : ¬ ∀ (clientFlag : UInt32) (start : UInt8) (r : SqlResult), Answers clientFlag start r := by
  intro h
  have hsend := (answers_rows rfl (List.cons_ne_nil _ _)).mp (h clientProtocol41 1 nullResult)
  obtain ⟨-, -, -, -, hrows⟩ := hsend
  obtain ⟨-, hkept, -⟩ := hrows _ (List.mem_singleton.mpr rfl)
  exact hkept .null (List.mem_singleton.mpr rfl)

end Miniob.Net.Mysql
