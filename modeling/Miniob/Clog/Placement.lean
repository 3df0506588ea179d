/-
  Which log file an entry is in, for any number of entries per file (`LogFileManager` in
  src/observer/storage/clog/log_file.cpp, with `DiskLogHandler` on top of it).

  * `LogFileManager` has the number of entries per file as it was initialised.  With the number of
    `DiskLogHandler::init` it does what the functions in LogFile and DiskLogHandler do.
  * `Laid` is the invariant: the files are named 0, max, 2 * max, ..., and before the i-th of them stand the
    entries with LSNs less than i * max.
  * `open` takes the last LSN of a file as an `int`.  A file whose last LSN does not fit is full from the
    start, and the thread goes on to the next one.
-/
import Miniob.Clog.Recovery

namespace Miniob.Clog

open Miniob.Common Miniob.Storage

structure LogFileManager where
  maxEntryNumberPerFile : Nat
  /-- `log_files_`. -/
  files : List LogFile

namespace LogFileManager

variable (m : LogFileManager) (w : LogFileWriter)

def listFiles (startLsn : Int) : List LogFile :=
  m.files.filter fun f => f.lsn + m.maxEntryNumberPerFile - 1 ≥ startLsn

/-- `LogFileWriter::open`, whose parameter is an `int`. -/
def openFile (lsn : Int) : LogFileWriter :=
  { w with valid := true, endLsn := int32 (lsn + m.maxEntryNumberPerFile - 1) }

/-- The name of the next file. -/
def nextLsn : Int :=
  match m.files.getLast? with
  | none => 0
  | some f => f.lsn + m.maxEntryNumberPerFile

def nextFile : LogFileWriter × List LogFile := (m.openFile w m.nextLsn, m.files ++ [⟨m.nextLsn, []⟩])

def lastFile : LogFileWriter × List LogFile :=
  match m.files.getLast? with
  | none => m.nextFile w
  | some f => (m.openFile w f.lsn, m.files)

/-- The file the thread writes to in its next turn. -/
def fileToWrite (rc : RC) : LogFileWriter × List LogFile :=
  if w.valid = false ∨ rc = .logFileFull then
    if rc = .logFileFull then m.nextFile w else m.lastFile w
  else (w, m.files)

/-- `DiskLogHandler::iterate` with a consumer that notes the entries. -/
def read (startLsn : Int) : Except RC (List LogEntry) :=
  iterateFiles noteEntry startLsn (m.listFiles startLsn) []

/-- `DiskLogHandler::replay`. -/
def replay (startLsn : Int) : Except RC (Int × List LogEntry) :=
  iterateFiles (replayCallback noteEntry) startLsn (m.listFiles startLsn) (0, [])

/-- With the number in `DiskLogHandler::init` these are the functions of the handler. -/
theorem listFiles_init (files : List LogFile) (startLsn : Int) :
    (mk 1000 files).listFiles startLsn = Clog.listFiles files startLsn := rfl

/-- At the start there is no file to write to, so one is opened. -/
theorem fileToWrite_init (h : DiskLogHandler) : (mk 1000 h.files).fileToWrite h.writer h.rc = h.openFile := by
  have hnext : (mk 1000 h.files).nextFile h.writer = h.writer.nextFile h.files := by
    unfold nextFile LogFileWriter.nextFile nextLsn
    cases h.files.getLast? <;> rfl
  have hlast : (mk 1000 h.files).lastFile h.writer = h.writer.lastFile h.files := by
    unfold lastFile LogFileWriter.lastFile
    show (match h.files.getLast? with | none => _ | some f => _) = _
    cases h.files.getLast? with
    | none => exact hnext
    | some f => rfl
  unfold fileToWrite DiskLogHandler.openFile
  rw [hnext, hlast]

end LogFileManager

/-! ## Runs -/

inductive PlacementAction where
  | append (module : LogModule) (data : List UInt8)
  | turn
  /-- A new process, which replays from an LSN on. -/
  | restart (startLsn : Int)

namespace LogHistory

variable (max : Nat)

def manager (s : LogHistory) : LogFileManager := ⟨max, s.handler.files⟩

/-- One turn of the loop in `thread_func`. -/
def turn (s : LogHistory) : Except LogFault LogHistory := do
  let (writer, files) := (s.manager max).fileToWrite s.handler.writer s.handler.rc
  let flushed ← flush writer files s.handler.entries
  return s.write (s.handler.afterFlush flushed) flushed.written

/-- One action, with the history that it leaves. -/
def place (s : LogHistory) : PlacementAction → Except LogFault (Unit × LogHistory)
  | .append module data => .ok ((), { s with handler := (s.handler.append module data).2 })
  | .turn => do
    let s ← s.turn max
    return ((), s)
  | .restart startLsn =>
    match (s.manager max).replay startLsn with
    | .error rc => .error (.recovery rc)
    | .ok (maxLsn, _) => .ok ((), { s with handler := .started s.handler.files maxLsn })

/-- With the number in `DiskLogHandler::init` a turn is one of the handler. -/
theorem turn_init (s : LogHistory) : s.place 1000 .turn = (s.step .turn).map fun r => ((), r.2) := by
  show (s.turn 1000 >>= _) = Except.map _ (s.handler.turn >>= _)
  unfold turn DiskLogHandler.turn
  rw [manager, LogFileManager.fileToWrite_init]
  generalize s.handler.openFile = out
  obtain ⟨writer, files⟩ := out
  dsimp only
  cases flush writer files s.handler.entries with
  | error e => rfl
  | ok fl => rfl

/-- The first LSN that belongs to the i-th file.  No entry has the LSN 0. -/
def firstLsn (i : Nat) : Int := if i = 0 then 1 else i * max

/-- Every file has its LSNs and no others, no LSN is left out between two files, and the reader finds
    everything from a start on. -/
structure Placed (s : LogHistory) : Prop where
  /-- The bytes of each file are its entries. -/
  bytes : List.Forall₂ (fun f es => f.bytes = encodeAll LogEntry.toBytes es) s.handler.files s.written
  /-- A file is named by the first LSN it is for. -/
  names : ∀ (i : Nat) f, s.handler.files[i]? = some f → f.lsn = i * max
  /-- The LSNs of a file run on from there. -/
  lsns : ∀ (i : Nat) es (j : Nat) e, s.written[i]? = some es → es[j]? = some e →
    e.lsn = firstLsn max i + j
  /-- They stop before the next file. -/
  room : ∀ (i : Nat) es, s.written[i]? = some es → firstLsn max i + es.length ≤ i * max + max
  /-- Every file but the last is used up. -/
  full : ∀ (i : Nat) es, s.written[i]? = some es → i + 1 < s.written.length →
    firstLsn max i + es.length = i * max + max
  sorted : s.written.flatten.Pairwise fun a b => a.lsn < b.lsn
  /-- The reader gives every entry from the start on. -/
  reads : ∀ startLsn, (s.manager max).read startLsn
    = .ok (s.written.flatten.filter fun e => decide (startLsn ≤ e.lsn))

/-- The last LSN of every file that is written to fits into an `int`, and a new process replays from no LSN
    behind the last entry. -/
def Fits (s : LogHistory) : PlacementAction → Prop
  | .append _ _ => True
  | .turn => ∀ f, ((s.manager max).fileToWrite s.handler.writer s.handler.rc).2.getLast? = some f →
      f.lsn + max - 1 < 2 ^ 31
  | .restart startLsn => ∀ e, s.written.flatten.getLast? = some e → startLsn ≤ e.lsn

end LogHistory

/-! ## The invariant -/

/-- The files are named one behind the other, and all but the last are full. -/
structure Laid (max : Nat) (s : LogHistory) : Prop where
  bytes : List.Forall₂ (fun f es => f.bytes = encodeAll LogEntry.toBytes es) s.handler.files s.written
  valid : ∀ e ∈ s.written.flatten, e.Valid
  names : ∀ (i : Nat) f, s.handler.files[i]? = some f → f.lsn = i * max
  /-- The entries before a file are those up to its name. -/
  before : ∀ i, i < s.written.length → (s.written.take i).flatten.length = i * max - 1
  /-- No file has more than its share. -/
  room : s.written.flatten.length ≤ s.written.length * max - 1
  /-- The last LSN of a file fits in an `int`. -/
  fits : ∀ f ∈ s.handler.files, f.lsn + max - 1 < 2 ^ 31
  /-- The LSNs run on from 1. -/
  numbered : Numbered s.log
  /-- The current LSN is the number of entries. -/
  current : s.handler.currentLsn = s.log.length
  /-- What waits can be encoded. -/
  buffered : ∀ e ∈ s.handler.entries, (0 ≤ e.moduleId ∧ e.moduleId < 4) ∧
    e.payloadSize ≤ LogEntry.maxPayloadSize
  /-- The writer stands on the last file. -/
  writer : s.handler.writer.valid = true → 0 < s.written.length ∧
    s.handler.writer.endLsn = s.written.length * max - 1
  /-- It has written no more than there is. -/
  lastLsn : s.handler.writer.lastLsn ≤ s.written.flatten.length
  /-- It reports a full file when the file is full. -/
  full : s.handler.rc = .logFileFull → 0 < s.written.length ∧
    s.written.flatten.length = s.written.length * max - 1

section Laid

variable {max : Nat} {s s' : LogHistory}

/-- No file, no entry. -/
theorem laid_empty : Laid max .empty where
  bytes := .nil
  valid := fun _ he => absurd he List.not_mem_nil
  names := by
    intro i f hf
    rw [show LogHistory.empty.handler.files[i]? = none from List.getElem?_nil] at hf
    cases hf
  before := fun _ hi => absurd hi (Nat.not_lt_zero _)
  room := Nat.zero_le _
  fits := fun _ hf => absurd hf List.not_mem_nil
  numbered := Numbered.nil
  current := rfl
  buffered := fun _ he => absurd he List.not_mem_nil
  writer := fun h => absurd h Bool.false_ne_true
  lastLsn := Int.le_refl 0
  full := fun h => by cases h

/-- Delivering entries one by one gives them in their order. -/
theorem foldlM_notes (es : List LogEntry) : ∀ acc, es.foldlM noteEntry acc = .ok (acc ++ es) := by
  induction es with
  | nil => exact fun acc => congrArg _ (List.append_nil acc).symm
  | cons e es ih =>
    intro acc
    refine (ih (acc ++ [e])).trans ?_
    rw [List.append_assoc, List.singleton_append]

/-- What stands before a file are the LSNs less than its name. -/
theorem Laid.lsn_eq (h : Laid max s) (hmax : 0 < max) {i j : Nat} {es : List LogEntry} {e : LogEntry}
    (hes : s.written[i]? = some es) (he : es[j]? = some e) : e.lsn = LogHistory.firstLsn max i + j := by
  obtain ⟨hi, heq⟩ := List.getElem?_eq_some_iff.mp hes
  obtain ⟨hj, hej⟩ := List.getElem?_eq_some_iff.mp he
  have hsplit : s.written.flatten
      = (s.written.take i).flatten ++ (es ++ (s.written.drop (i + 1)).flatten) := by
    conv_lhs => rw [← List.take_append_drop i s.written, List.drop_eq_getElem_cons hi, heq]
    rw [List.flatten_append, List.flatten_cons]
  have hbefore := h.before i hi
  have hat : s.log[(s.written.take i).flatten.length + j]? = some e := by
    unfold LogHistory.log
    rw [hsplit, List.append_assoc, List.getElem?_append_right (Nat.le_add_right _ _), Nat.add_sub_cancel_left,
      List.append_assoc, List.getElem?_append_left hj, he]
  have hlsn := h.numbered _ e hat
  rw [hlsn, hbefore]
  unfold LogHistory.firstLsn
  cases i with
  | zero =>
    rw [if_pos rfl]
    omega
  | succ i =>
    rw [if_neg (Nat.succ_ne_zero i)]
    have hpos : 1 ≤ (i + 1) * max := Nat.mul_pos (Nat.succ_pos i) hmax
    rw [← Nat.cast_mul]
    omega

/-- The number of entries before the end of a file. -/
theorem Laid.length_take (h : Laid max s) {i : Nat} {es : List LogEntry} (hes : s.written[i]? = some es) :
    (s.written.take (i + 1)).flatten.length = (i * max - 1) + es.length := by
  obtain ⟨hi, heq⟩ := List.getElem?_eq_some_iff.mp hes
  rw [List.take_succ_eq_append_getElem hi, heq, List.flatten_concat, List.length_append, h.before i hi]

/-- A file other than the last one is full. -/
theorem Laid.room_of (h : Laid max s) (hmax : 0 < max) {i : Nat} {es : List LogEntry}
    (hes : s.written[i]? = some es) : LogHistory.firstLsn max i + es.length ≤ i * max + max ∧
      (i + 1 < s.written.length → LogHistory.firstLsn max i + es.length = i * max + max) := by
  obtain ⟨hi, -⟩ := List.getElem?_eq_some_iff.mp hes
  have hlength := h.length_take hes
  have hend : i + 1 < s.written.length → (i * max - 1) + es.length = (i + 1) * max - 1 := fun hlt => by
    rw [← hlength, h.before (i + 1) hlt]
  have hle : (i * max - 1) + es.length ≤ (i + 1) * max - 1 := by
    rcases Nat.lt_or_ge (i + 1) s.written.length with hlt | hge
    · exact Nat.le_of_eq (hend hlt)
    · have hroom := h.room
      have hlast : s.written.length = i + 1 := by omega
      rw [← hlength, List.take_of_length_le (by omega)]
      rw [hlast] at hroom
      exact hroom
  unfold LogHistory.firstLsn
  rw [Nat.add_mul, Nat.one_mul] at hle hend
  cases i with
  | zero =>
    rw [if_pos rfl]
    simp only [Nat.zero_sub, Nat.cast_zero, zero_mul, zero_add] at *
    constructor
    · omega
    · intro hlt
      have := hend hlt
      omega
  | succ i =>
    rw [if_neg (Nat.succ_ne_zero i)]
    have hpos : 1 ≤ (i + 1) * max := Nat.mul_pos (Nat.succ_pos i) hmax
    rw [← Nat.cast_mul]
    generalize (i + 1) * max = k at *
    constructor
    · omega
    · intro hlt
      have := hend hlt
      omega

/-- The reader finds the entries from the start on. -/
theorem Laid.holds (h : Laid max s) (hmax : 0 < max) : List.Forall₂ (fun f es =>
    f.bytes = encodeAll LogEntry.toBytes es ∧ (∀ e ∈ es, e.Valid) ∧
      ∀ e ∈ es, e.lsn ≤ f.lsn + (max : Int) - 1)
      s.handler.files s.written := by
  rw [List.forall₂_iff_get]
  refine ⟨h.bytes.length_eq, fun i hf hes => ⟨?_, fun e he => ?_, fun e he => ?_⟩⟩
  · exact h.bytes.get hf hes
  · exact h.valid e (List.mem_flatten.mpr ⟨_, List.getElem_mem hes, he⟩)
  · obtain ⟨j, hj⟩ := List.getElem?_of_mem he
    obtain ⟨hlt, -⟩ := List.getElem?_eq_some_iff.mp hj
    have hat : s.written[i]? = some (s.written.get ⟨i, hes⟩) := List.getElem?_eq_getElem hes
    have hlsn := h.lsn_eq hmax hat hj
    have hname := h.names i _ (List.getElem?_eq_getElem hf)
    have hroom := (h.room_of hmax hat).1
    show e.lsn ≤ (s.handler.files[i]).lsn + max - 1
    rw [hname, hlsn]
    omega

/-- The invariant says where each entry is. -/
theorem Laid.placed (h : Laid max s) (hmax : 0 < max) : s.Placed max where
  bytes := h.bytes
  names := h.names
  lsns := fun _ _ _ _ hes he => h.lsn_eq hmax hes he
  room := fun _ _ hes => (h.room_of hmax hes).1
  full := fun _ _ hes => (h.room_of hmax hes).2
  sorted := (h.numbered.of_prefix (List.prefix_append _ _)).sorted
  reads := by
    intro startLsn
    have hsorted := (h.numbered.of_prefix (List.prefix_append s.written.flatten s.handler.entries)).sorted
    refine (iterateFiles_filter (h.holds hmax) hsorted []).trans ?_
    rw [foldlM_notes, List.nil_append]

/-! ## One step -/

/-- An entry that is appended waits, and the files stay. -/
theorem Laid.append (h : Laid max s) (module : LogModule) (data : List UInt8) :
    Laid max { s with handler := (s.handler.append module data).2 } := by
  unfold DiskLogHandler.append LogEntry.init
  by_cases hsize : (data.length : Int) > LogEntry.maxPayloadSize
  · rw [if_pos hsize]
    exact h
  · rw [if_neg hsize]
    have hlog : s.written.flatten ++ (s.handler.entries ++
        [(⟨s.handler.currentLsn + 1, module.index, data⟩ : LogEntry)])
          = s.log ++ [⟨s.handler.currentLsn + 1, module.index, data⟩] := by
      rw [LogHistory.log, List.append_assoc]
    refine ⟨h.bytes, h.valid, h.names, h.before, h.room, h.fits, ?_, ?_, ?_, h.writer, h.lastLsn, h.full⟩
    · show Numbered (s.written.flatten ++ _)
      rw [hlog]
      exact h.numbered.concat (by rw [← h.current])
    · show s.handler.currentLsn + 1 = ((s.written.flatten ++ _).length : Nat)
      rw [hlog, h.current, List.length_append, List.length_singleton]
      rfl
    · intro e he
      rcases List.mem_append.mp he with he | he
      · exact h.buffered e he
      · obtain rfl := List.mem_singleton.mp he
        exact ⟨module_index module, Int.not_lt.mp hsize⟩

/-- The files are read from the start LSN on, and the handler is where it was. -/
theorem Laid.restart (h : Laid max s) (hmax : 0 < max) {startLsn : Int}
    (hstart : ∀ e, s.written.flatten.getLast? = some e → startLsn ≤ e.lsn) :
    ∃ delivered, (s.manager max).replay startLsn = .ok ((s.written.flatten.length : Int), delivered) ∧
      Laid max { s with handler := .started s.handler.files s.written.flatten.length } := by
  have hnum : Numbered s.written.flatten := h.numbered.of_prefix (List.prefix_append _ _)
  refine ⟨_, (iterateFiles_filter (h.holds hmax) hnum.sorted (0, [])).trans
    (foldlM_from_start hnum hstart), ?_⟩
  have hlog : LogHistory.log { s with handler := .started s.handler.files s.written.flatten.length }
      = s.written.flatten := List.append_nil _
  refine ⟨h.bytes, h.valid, h.names, h.before, h.room, h.fits, ?_, ?_, ?_, ?_, ?_, ?_⟩
  · rw [hlog]
    exact hnum
  · rw [hlog]
    rfl
  · exact fun _ he => absurd he List.not_mem_nil
  · exact fun hvalid => absurd hvalid Bool.false_ne_true
  · exact Int.natCast_nonneg _
  · exact fun hrc => by cases hrc

namespace LogHistory

/-- A file that is there is opened. -/
def reopen (s : LogHistory) (writer : LogFileWriter) : LogHistory :=
  { s with handler := { s.handler with writer, rc := .success } }

/-- A new file is opened. -/
def addFile (s : LogHistory) (writer : LogFileWriter) (lsn : Int) : LogHistory where
  handler := { s.handler with writer, rc := .success, files := s.handler.files ++ [⟨lsn, []⟩] }
  written := s.written ++ [[]]

end LogHistory

/-- The last file is opened. -/
theorem Laid.reopen (h : Laid max s) (hpos : 0 < s.written.length) (writer : LogFileWriter)
    (hlast : writer.lastLsn = s.handler.writer.lastLsn) (hend : writer.endLsn = s.written.length * max - 1) :
    Laid max (s.reopen writer) := by
  refine ⟨h.bytes, h.valid, h.names, h.before, h.room, h.fits, h.numbered, h.current, h.buffered,
    ?_, ?_, ?_⟩
  · exact fun _ => ⟨hpos, hend⟩
  · show writer.lastLsn ≤ _
    rw [hlast]
    exact h.lastLsn
  · exact fun hrc => by cases hrc

/-- A new file is opened behind full ones. -/
theorem Laid.addFile (h : Laid max s) (hfull : s.written.flatten.length = s.written.length * max - 1)
    (writer : LogFileWriter) {lsn : Int} (hlsn : lsn = s.written.length * max) (hfit : lsn + max - 1 < 2 ^ 31)
    (hlast : writer.lastLsn = s.handler.writer.lastLsn)
    (hend : writer.endLsn = lsn + max - 1) : Laid max (s.addFile writer lsn) := by
  -- an empty file at the end changes nothing that has been written
  have hflat : (s.addFile writer lsn).written.flatten = s.written.flatten := by
    show (s.written ++ [[]]).flatten = _
    rw [List.flatten_concat, List.append_nil]
  have hlog : (s.addFile writer lsn).log = s.log := by
    unfold LogHistory.log
    rw [hflat]
    rfl
  have hlen : (s.addFile writer lsn).written.length = s.written.length + 1 := by
    show (s.written ++ [[]]).length = _
    rw [List.length_append, List.length_singleton]
  refine ⟨?_, ?_, ?_, ?_, ?_, ?_, ?_, ?_, h.buffered, ?_, ?_, ?_⟩
  · exact List.rel_append h.bytes (.cons rfl .nil)
  · rw [hflat]
    exact h.valid
  -- the name of the new file is the first LSN that is not in the files before
  · intro i f (hf : (s.handler.files ++ [⟨lsn, []⟩])[i]? = some f)
    rcases Nat.lt_trichotomy i s.handler.files.length with hlt | heq | hgt
    · rw [List.getElem?_append_left hlt] at hf
      exact h.names i f hf
    · rw [heq, List.getElem?_append_right (Nat.le_refl _), Nat.sub_self, List.getElem?_cons_zero] at hf
      obtain rfl := Option.some.inj hf
      rw [heq, h.bytes.length_eq]
      exact hlsn
    · rw [List.getElem?_eq_none (by rw [List.length_append, List.length_singleton]; omega)] at hf
      cases hf
  -- the file before is full
  · intro i hi
    rw [hlen] at hi
    rcases Nat.lt_or_ge i s.written.length with hlt | hge
    · show ((s.written ++ [[]]).take i).flatten.length = _
      rw [List.take_append_of_le_length (Nat.le_of_lt hlt)]
      exact h.before i hlt
    · obtain rfl : i = s.written.length := by omega
      show ((s.written ++ [[]]).take s.written.length).flatten.length = _
      rw [List.take_left, hfull]
  · rw [hflat, hlen, Nat.add_mul, Nat.one_mul, hfull]
    omega
  -- its LSNs are in the range of `int`
  · intro f (hf : f ∈ s.handler.files ++ [⟨lsn, []⟩])
    rcases List.mem_append.mp hf with hf | hf
    · exact h.fits f hf
    · obtain rfl := List.mem_singleton.mp hf
      exact hfit
  · rw [hlog]
    exact h.numbered
  · rw [hlog]
    exact h.current
  -- the writer has its end in the new file
  · intro _
    refine ⟨by rw [hlen]; exact Nat.succ_pos _, ?_⟩
    show writer.endLsn = _
    rw [hlen, hend, hlsn]
    push_cast
    rw [add_mul, one_mul]
  · rw [hflat]
    show writer.lastLsn ≤ _
    rw [hlast]
    exact h.lastLsn
  · exact fun hrc => by cases hrc

namespace LogHistory

/-- What a turn does behind opening the file. -/
def flushed (s : LogHistory) : Except LogFault LogHistory := do
  let flushed ← flush s.handler.writer s.handler.files s.handler.entries
  return s.write (s.handler.afterFlush flushed) flushed.written

/-- A file is open and the entries are where they were. -/
structure Opened (max : Nat) (s s₁ : LogHistory) : Prop where
  laid : Laid max s₁
  /-- The writer is valid again. -/
  valid : s₁.handler.writer.valid = true
  /-- The turn goes on with the flush. -/
  turn : s.turn max = s₁.flushed
  flatten : s₁.written.flatten = s.written.flatten
  entries : s₁.handler.entries = s.handler.entries
  /-- After a full file there is one file more. -/
  more : s.handler.rc = .logFileFull → s₁.written.length = s.written.length + 1

end LogHistory

/-- The files that are full say which LSN is next. -/
theorem Laid.nextLsn (h : Laid max s) : (s.manager max).nextLsn = s.written.length * max := by
  show (match s.handler.files.getLast? with | none => _ | some f => _) = _
  rw [← h.bytes.length_eq]
  rcases List.eq_nil_or_concat' s.handler.files with hnil | ⟨init, f, hfiles⟩
  · rw [hnil]
    show (0 : Int) = (0 : Nat) * max
    omega
  · have hname := h.names init.length f (by rw [hfiles, List.getElem?_append_right (Nat.le_refl _)]; simp)
    rw [hfiles, List.getLast?_concat, List.length_append, List.length_singleton]
    show f.lsn + max = _
    rw [hname]
    push_cast
    rw [add_mul, one_mul]

/-- The file at the end of the list, and where it ends. -/
theorem Laid.last (h : Laid max s) {f : LogFile} (hf : s.handler.files.getLast? = some f) :
    0 < s.written.length ∧ f.lsn + max = s.written.length * max := by
  refine ⟨?_, ?_⟩
  · rw [← h.bytes.length_eq]
    exact List.length_pos_of_mem (List.mem_of_getLast? hf)
  · have hnext := h.nextLsn
    unfold LogFileManager.nextLsn LogHistory.manager at hnext
    rw [hf] at hnext
    exact hnext

theorem endLsn_eq (hmax : 0 < max) {lsn : Int} (hpos : 0 ≤ lsn) (hfit : lsn + max - 1 < 2 ^ 31) :
    int32 (lsn + max - 1) = lsn + max - 1 :=
  int32_of_range (by omega) (by omega)

/-- A turn opens the file and flushes. -/
theorem turn_eq_flushed {s₁ : LogHistory} (h₁ : Laid max s₁) (hne : 0 < s₁.written.length)
    (hfile : (s.manager max).fileToWrite s.handler.writer s.handler.rc
      = (s₁.handler.writer, s₁.handler.files))
    (hafter : ∀ fl, s.handler.afterFlush fl = s₁.handler.afterFlush fl)
    (hentries : s₁.handler.entries = s.handler.entries)
    (hwritten : (if s.written.length < s₁.handler.files.length then s.written ++ [[]] else s.written)
      = s₁.written) : s.turn max = s₁.flushed := by
  have hlen := h₁.bytes.length_eq
  unfold LogHistory.turn LogHistory.flushed
  rw [hfile, hentries]
  dsimp only
  cases hfl : flush s₁.handler.writer s₁.handler.files s.handler.entries with
  | error e => rfl
  | ok fl =>
    have hfiles : fl.files.length = s₁.handler.files.length := by
      rcases List.eq_nil_or_concat' s₁.handler.files with hnil | ⟨init, f, hfiles⟩
      · rw [hnil, List.length_nil] at hlen
        omega
      · rw [hfiles] at hfl
        rw [(flush_ok hfl).2.1, hfiles, List.length_append, List.length_append]
        rfl
    show Except.ok (s.write _ _) = Except.ok (s₁.write _ _)
    rw [hafter]
    unfold LogHistory.write
    show Except.ok (LogHistory.mk _ _) = Except.ok (LogHistory.mk _ _)
    rw [show (s₁.handler.afterFlush fl).files.length = s₁.handler.files.length from hfiles, hwritten,
      if_neg (by omega)]

/-- When the file is full or there is none, the next one is opened at its first LSN. -/
theorem Laid.opened (h : Laid max s) (hmax : 0 < max) (hfit : s.Fits max .turn) :
    ∃ s₁, LogHistory.Opened max s s₁ := by
  have hlen := h.bytes.length_eq
  -- a new file is opened if the last one is full or there is none
  have hnext (hfull : s.written.flatten.length = s.written.length * max - 1)
      (heq : (s.manager max).fileToWrite s.handler.writer s.handler.rc
        = (s.manager max).nextFile s.handler.writer) : ∃ s₁, LogHistory.Opened max s s₁ := by
    have hlsn := h.nextLsn
    have hpos : 0 ≤ (s.manager max).nextLsn := by
      rw [hlsn, ← Nat.cast_mul]
      exact Int.natCast_nonneg _
    have hfit : (s.manager max).nextLsn + max - 1 < 2 ^ 31 := by
      refine hfit ⟨(s.manager max).nextLsn, []⟩ ?_
      rw [heq]
      exact List.getLast?_concat
    have hlaid := h.addFile hfull ((s.manager max).openFile s.handler.writer (s.manager max).nextLsn)
      hlsn hfit rfl (endLsn_eq hmax hpos hfit)
    refine ⟨_, hlaid, rfl, turn_eq_flushed hlaid ?_ heq (fun _ => rfl) rfl ?_, ?_, rfl, fun _ => ?_⟩
    · exact List.length_pos_of_mem (List.mem_append_right _ (List.mem_singleton_self _))
    · show (if s.written.length < (s.handler.files ++ [_]).length then _ else _) = _
      rw [if_pos (by rw [List.length_append, List.length_singleton]; omega)]
      rfl
    · show (s.written ++ [[]]).flatten = _
      rw [List.flatten_concat, List.append_nil]
    · exact List.length_append
  -- by the code of the last flush, and by whether the writer has a file
  by_cases hrc : s.handler.rc = .logFileFull
  · refine hnext (h.full hrc).2 ?_
    unfold LogFileManager.fileToWrite
    rw [if_pos (Or.inr hrc), if_pos hrc]
  -- the writer keeps its file
  · cases hvalid : s.handler.writer.valid with
    | true =>
      refine ⟨s, h, hvalid, turn_eq_flushed h (h.writer hvalid).1 ?_ (fun _ => rfl) rfl ?_, rfl, rfl,
        fun h => absurd h hrc⟩
      · unfold LogFileManager.fileToWrite
        rw [if_neg (by rw [not_or, hvalid]; exact ⟨Bool.noConfusion, hrc⟩)]
        rfl
      · rw [if_neg (by omega)]
    | false =>
      have hlast : (s.manager max).fileToWrite s.handler.writer s.handler.rc
          = (s.manager max).lastFile s.handler.writer := by
        unfold LogFileManager.fileToWrite
        rw [if_pos (Or.inl hvalid), if_neg hrc]
      unfold LogFileManager.lastFile at hlast
      cases hl : s.handler.files.getLast? with
      | none =>
        -- the first file
        have hnil : s.written = [] := by
          rw [List.getLast?_eq_none_iff.mp hl] at hlen
          exact List.length_eq_zero_iff.mp hlen.symm
        refine hnext ?_ ?_
        · rw [hnil, List.length_nil, Nat.zero_mul]
          rfl
        · rw [show (s.manager max).files.getLast? = none from hl] at hlast
          exact hlast
      | some f =>
        rw [show (s.manager max).files.getLast? = some f from hl] at hlast
        -- the last file is opened again, with the end that its name stands for
        obtain ⟨hpos, hname⟩ := h.last hl
        have hfit : f.lsn + max - 1 < 2 ^ 31 := h.fits f (List.mem_of_getLast? hl)
        have hlsn : 0 ≤ f.lsn := by
          obtain ⟨i, hi⟩ := List.getElem?_of_mem (List.mem_of_getLast? hl)
          rw [h.names i f hi, ← Nat.cast_mul]
          exact Int.natCast_nonneg _
        have hend : int32 (f.lsn + max - 1) = s.written.length * max - 1 := by
          rw [endLsn_eq hmax hlsn hfit, hname]
        have hlaid := h.reopen hpos ((s.manager max).openFile s.handler.writer f.lsn) rfl hend
        refine ⟨_, hlaid, rfl, turn_eq_flushed hlaid hpos hlast (fun _ => rfl) rfl ?_, rfl, rfl,
          fun h => absurd h hrc⟩
        show (if s.written.length < s.handler.files.length then _ else _) = _
        rw [if_neg (by omega)]
        rfl

/-- A flush into the last file `f`, of which `fl` tells what was written and what is left. -/
structure Flushes (s : LogHistory) (fl : Flushed) (init : List LogFile) (f : LogFile)
    (winit : List (List LogEntry)) (es : List LogEntry) : Prop where
  run : flush s.handler.writer s.handler.files s.handler.entries = .ok fl
  files : s.handler.files = init ++ [f]
  written : s.written = winit ++ [es]

/-- A flush writes behind what the last file has. -/
theorem Laid.flushes (h : Laid max s) (hvalid : s.handler.writer.valid = true) {fl : Flushed}
    (hfl : flush s.handler.writer s.handler.files s.handler.entries = .ok fl) :
    ∃ init f winit es, Flushes s fl init f winit es := by
  obtain ⟨hpos, -⟩ := h.writer hvalid
  have hlen := h.bytes.length_eq
  rcases List.eq_nil_or_concat' s.handler.files with hnil | ⟨init, f, hfiles⟩
  · rw [hnil, List.length_nil] at hlen
    omega
  · rcases List.eq_nil_or_concat' s.written with hnil | ⟨winit, es, hwritten⟩
    · rw [hnil, List.length_nil] at hpos
      omega
    · exact ⟨init, f, winit, es, hfl, hfiles, hwritten⟩

section Flushes

variable {fl : Flushed} {init : List LogFile} {f : LogFile} {winit : List (List LogEntry)} {es : List LogEntry}

theorem Flushes.ok (p : Flushes s fl init f winit es) :
    flush s.handler.writer (init ++ [f]) s.handler.entries = .ok fl := p.files ▸ p.run

theorem Flushes.split (p : Flushes s fl init f winit es) : s.handler.entries = fl.written ++ fl.entries :=
  (flush_ok p.ok).1

/-- The files but for what was written to the last one. -/
theorem Flushes.lsns (p : Flushes s fl init f winit es) :
    fl.files.map LogFile.lsn = s.handler.files.map LogFile.lsn := by
  rw [(flush_ok p.ok).2.1, p.files, List.map_append, List.map_append]
  rfl

theorem Flushes.length_files (p : Flushes s fl init f winit es) : fl.files.length = s.handler.files.length := by
  have := congrArg List.length p.lsns
  rwa [List.length_map, List.length_map] at this

theorem Flushes.lsn (p : Flushes s fl init f winit es) {i : Nat} {g : LogFile} (hg : fl.files[i]? = some g) :
    ∃ g', s.handler.files[i]? = some g' ∧ g'.lsn = g.lsn := by
  have hat : (s.handler.files.map LogFile.lsn)[i]? = some g.lsn := by
    rw [← p.lsns, List.getElem?_map, hg]
    rfl
  rw [List.getElem?_map] at hat
  exact Option.map_eq_some_iff.mp hat

theorem Flushes.written_write (p : Flushes s fl init f winit es) (h : Laid max s) :
    (s.write (s.handler.afterFlush fl) fl.written).written = winit ++ [es ++ fl.written] := by
  have hlen := h.bytes.length_eq
  have hfiles := p.length_files
  unfold LogHistory.write DiskLogHandler.afterFlush
  dsimp only
  rw [if_neg (by omega), p.written, List.getLast?_concat, List.dropLast_concat]

theorem Flushes.flatten_write (p : Flushes s fl init f winit es) (h : Laid max s) :
    (s.write (s.handler.afterFlush fl) fl.written).written.flatten = s.written.flatten ++ fl.written := by
  rw [p.written_write h, p.written, List.flatten_concat, List.flatten_concat, List.append_assoc]

theorem Flushes.length_write (p : Flushes s fl init f winit es) (h : Laid max s) :
    (s.write (s.handler.afterFlush fl) fl.written).written.length = s.written.length := by
  rw [p.written_write h, p.written, List.length_append, List.length_append]
  rfl

theorem Flushes.log_write (p : Flushes s fl init f winit es) (h : Laid max s) :
    (s.write (s.handler.afterFlush fl) fl.written).log = s.log := by
  unfold LogHistory.log
  rw [p.flatten_write h, p.split, List.append_assoc]
  rfl

theorem Flushes.numbered (p : Flushes s fl init f winit es) (h : Laid max s) :
    Numbered (s.written.flatten ++ fl.written) := by
  have hpre : s.written.flatten ++ fl.written <+: s.log := by
    unfold LogHistory.log
    rw [p.split, ← List.append_assoc]
    exact List.prefix_append _ _
  exact h.numbered.of_prefix hpre

/-- The last entry that was written: its number, and that the file has room for it. -/
theorem Flushes.lastEntry (p : Flushes s fl init f winit es) (h : Laid max s)
    (hvalid : s.handler.writer.valid = true) {e : LogEntry} (he : fl.written.getLast? = some e) :
    e.lsn = (s.written.flatten ++ fl.written).length ∧ e.lsn ≤ s.written.length * max - 1 := by
  obtain ⟨-, hend⟩ := h.writer hvalid
  obtain ⟨-, -, -, hle, -⟩ := flush_ok p.ok
  refine ⟨(p.numbered h).getLast ?_, hend ▸ hle e (List.mem_of_getLast? he)⟩
  rw [List.getLast?_append, he]
  rfl

/-- What is written fits into the file. -/
theorem Flushes.room (p : Flushes s fl init f winit es) (h : Laid max s)
    (hvalid : s.handler.writer.valid = true) :
    (s.written.flatten ++ fl.written).length ≤ s.written.length * max - 1 := by
  cases he : fl.written.getLast? with
  | none =>
    rw [List.getLast?_eq_none_iff.mp he, List.append_nil]
    exact h.room
  | some e =>
    obtain ⟨hlsn, hle⟩ := p.lastEntry h hvalid he
    rw [← Nat.cast_mul] at hle
    omega

/-- All other files are as they were. -/
theorem Flushes.bytes (p : Flushes s fl init f winit es) (h : Laid max s) :
    List.Forall₂ (fun (f : LogFile) es => f.bytes = encodeAll LogEntry.toBytes es) fl.files
      (winit ++ [es ++ fl.written]) := by
  have hbytes := h.bytes
  rw [p.files, p.written] at hbytes
  rw [(flush_ok p.ok).2.1]
  obtain ⟨winit', es', heq, hinit, hf⟩ := exists_of_forall₂_concat hbytes
  obtain ⟨rfl, hes⟩ := List.append_inj' heq rfl
  obtain rfl := (List.cons.inj hes).1
  refine List.rel_append hinit (.cons ?_ .nil)
  show f.bytes ++ _ = _
  rw [hf, encodeAll_append]

/-- The writer knows the last LSN that it has written. -/
theorem Flushes.lastLsn (p : Flushes s fl init f winit es) (h : Laid max s)
    (hvalid : s.handler.writer.valid = true) :
    fl.writer.lastLsn ≤ (s.written.flatten ++ fl.written).length := by
  obtain ⟨hlast, hname⟩ := h.last (f := f) (by rw [p.files, List.getLast?_concat])
  have hfit : f.lsn + max - 1 < 2 ^ 31 :=
    h.fits f (by rw [p.files]; exact List.mem_append_right _ (List.mem_singleton_self f))
  rw [(flush_ok p.ok).2.2.1]
  show (fl.written.getLast?.map fun e => int32 e.lsn).getD s.handler.writer.lastLsn ≤ _
  cases he : fl.written.getLast? with
  | none =>
    rw [List.getLast?_eq_none_iff.mp he, List.append_nil]
    exact h.lastLsn
  | some e =>
    obtain ⟨hlsn, hle⟩ := p.lastEntry h hvalid he
    show int32 e.lsn ≤ _
    rw [int32_of_range (by omega) (by omega), hlsn]

/-- If the writer stopped because the file is full, the entries up to its end have been written. -/
theorem Flushes.full (p : Flushes s fl init f winit es) (h : Laid max s)
    (hvalid : s.handler.writer.valid = true) (hrc : fl.rc = .logFileFull) :
    (s.written.flatten ++ fl.written).length = s.written.length * max - 1 := by
  obtain ⟨-, hend⟩ := h.writer hvalid
  obtain ⟨-, -, -, -, hfull⟩ := flush_ok p.ok
  obtain ⟨e, rest, hrest, hbehind⟩ := hfull hrc
  have hat : s.log[(s.written.flatten ++ fl.written).length]? = some e := by
    unfold LogHistory.log
    rw [p.split, ← List.append_assoc, List.getElem?_append_right (Nat.le_refl _), Nat.sub_self, hrest]
    rfl
  have hlsn := h.numbered _ e hat
  have hroom := p.room h hvalid
  rw [hend, ← Nat.cast_mul] at hbehind
  omega

end Flushes

/-- What the flush puts into the last file fits there. -/
theorem Laid.flushed (h : Laid max s) (hvalid : s.handler.writer.valid = true)
    {fl : Flushed} (hfl : flush s.handler.writer s.handler.files s.handler.entries = .ok fl) :
    s.flushed = .ok (s.write (s.handler.afterFlush fl) fl.written) ∧
      Laid max (s.write (s.handler.afterFlush fl) fl.written) ∧
      (s.write (s.handler.afterFlush fl) fl.written).written.flatten = s.written.flatten ++ fl.written := by
  -- what has been written is in the last file
  obtain ⟨hpos, hend⟩ := h.writer hvalid
  obtain ⟨init, f, winit, es, p⟩ := h.flushes hvalid hfl
  have hflat := p.flatten_write h
  have hcount := p.length_write h
  have hlog := p.log_write h
  refine ⟨?_, ⟨?_, ?_, ?_, ?_, ?_, ?_, ?_, ?_, ?_, ?_, ?_, ?_⟩, hflat⟩
  · unfold LogHistory.flushed
    rw [hfl]
    rfl
  · rw [p.written_write h]
    exact p.bytes h
  -- an entry is valid if its LSN is positive and fits in an `int`, which the end of the file sees to
  · rw [hflat]
    intro e he
    rcases List.mem_append.mp he with he | hnewEntry
    · exact h.valid e he
    · have hbuf := h.buffered e (by rw [p.split]; exact List.mem_append_left _ hnewEntry)
      have := (flush_ok p.ok).2.2.2.1 e hnewEntry
      obtain ⟨hlast, hname⟩ := h.last (f := f) (by rw [p.files, List.getLast?_concat])
      have hfit : f.lsn + max - 1 < 2 ^ 31 :=
        h.fits f (by rw [p.files]; exact List.mem_append_right _ (List.mem_singleton_self f))
      exact ⟨⟨(p.numbered h).pos he, by omega⟩, hbuf.1, hbuf.2⟩
  · intro i g hg
    obtain ⟨g', hg', hlsn⟩ := p.lsn hg
    rw [← hlsn]
    exact h.names i g' hg'
  · -- the entries of the files before the last one are the old ones
    intro i hi
    have hbefore := h.before i (by omega)
    rw [hcount, p.written, List.length_append, List.length_singleton] at hi
    rw [p.written, List.take_append_of_le_length (by omega)] at hbefore
    rw [p.written_write h, List.take_append_of_le_length (by omega)]
    exact hbefore
  · rw [hflat, hcount]
    exact p.room h hvalid
  -- the files have kept their names
  · intro g hg
    obtain ⟨i, hi⟩ := List.getElem?_of_mem hg
    obtain ⟨g', hg', hlsn⟩ := p.lsn hi
    rw [← hlsn]
    exact h.fits g' (List.mem_of_getElem? hg')
  · rw [hlog]
    exact h.numbered
  · rw [hlog]
    exact h.current
  -- what stays in the buffer was there before
  · intro e he
    refine h.buffered e ?_
    rw [p.split]
    exact List.mem_append_right _ he
  · rw [hcount]
    show fl.writer.valid = true → _ ∧ fl.writer.endLsn = _
    rw [(flush_ok p.ok).2.2.1]
    exact fun _ => ⟨hpos, hend⟩
  · rw [hflat]
    exact p.lastLsn h hvalid
  -- a flush that ends at a full file has filled it
  · intro hrc
    rw [hflat, hcount]
    exact ⟨hpos, p.full h hvalid hrc⟩

/-- A turn of the thread: open, and then flush. -/
theorem Laid.turn (h : Laid max s) (hmax : 0 < max) (hfit : s.Fits max .turn) (hturn : s.turn max = .ok s') :
    Laid max s' := by
  obtain ⟨s₁, hopen⟩ := h.opened hmax hfit
  rw [hopen.turn] at hturn
  obtain ⟨fl, hfl, -⟩ := ok_of_bind hturn
  obtain ⟨heq, hlaid, -⟩ := hopen.laid.flushed hopen.valid hfl
  obtain rfl := Except.ok.inj (heq.symm.trans hturn)
  exact hlaid

/-- The step lemma. -/
theorem Laid.step (h : Laid max s) (hmax : 0 < max) {a : PlacementAction} (hfit : s.Fits max a)
    {r : Unit} (hstep : s.place max a = .ok (r, s')) : Laid max s' := by
  cases a with
  | append module data =>
    obtain ⟨-, rfl⟩ := Prod.mk.inj (Except.ok.inj hstep)
    exact h.append module data
  | turn =>
    obtain ⟨s'', hturn, heq⟩ := ok_of_bind hstep
    obtain ⟨-, rfl⟩ := Prod.mk.inj (Except.ok.inj heq)
    exact h.turn hmax hfit hturn
  | restart startLsn =>
    obtain ⟨delivered, hreplay, hlaid⟩ := h.restart hmax hfit
    unfold LogHistory.place at hstep
    dsimp only at hstep
    rw [hreplay] at hstep
    obtain ⟨-, rfl⟩ := Prod.mk.inj (Except.ok.inj hstep)
    exact hlaid

/-- **Log file placement.**  For every number of entries per file and in every run of appends, turns of
    the thread and restarts in which the last LSN of every file fits into an `int`: every file has its LSNs
    in order and no others, every file but the last is full, and the reader delivers exactly the stored
    entries from a start on. -/
theorem log_file_placement (hmax : 0 < max)
    (h : Reachable (LogHistory.place max) (LogHistory.Fits max) .empty s) : s.Placed max :=
  (h.invariant laid_empty fun _ _ _ _ hs hfit hstep => hs.step hmax hfit hstep).placed hmax

/-- Three entries in files for two, and a restart. -/
theorem log_file_placement_two : ∃ s : LogHistory,
    s.written = [[⟨1, 0, [7]⟩], [⟨2, 3, [8]⟩, ⟨3, 3, [9]⟩]] ∧ s.Placed 2 := by
  have h : Reachable (LogHistory.place 2) (LogHistory.Fits 2) .empty .empty := .init
  have h := h.next (.append .bufferPool [7]) trivial rfl
  have h := h.next (.append .transaction [8]) trivial rfl
  have h := h.next .turn (fun f hf => by obtain rfl := Option.some.inj hf; decide) rfl
  have h := h.next .turn (fun f hf => by obtain rfl := Option.some.inj hf; decide) rfl
  have h := h.next (.restart 1) (fun e he => by obtain rfl := Option.some.inj he; decide) rfl
  have h := h.next (.append .transaction [9]) trivial rfl
  have h := h.next .turn (fun f hf => by obtain rfl := Option.some.inj hf; decide) rfl
  exact ⟨_, rfl, log_file_placement Nat.two_pos h⟩

/-! ## A file whose last LSN does not fit -/

/-- Appends and turns only. -/
def NoRestart (_ : LogHistory) (a : PlacementAction) : Prop := ∀ startLsn, a ≠ .restart startLsn

/-- A new file has the next LSN as its name. -/
theorem Laid.fits_turn (h : Laid max s) (hmax : 0 < max)
    (hnext : s.handler.rc = .logFileFull → s.written.flatten.length + 1 = s.written.length * max →
      s.written.flatten.length + max < 2 ^ 31)
    (hfirst : max ≤ 2 ^ 31) : s.Fits max .turn := by
  have hconcat (hnew : (s.manager max).nextLsn + max - 1 < 2 ^ 31) :
      ∀ f, ((s.manager max).nextFile s.handler.writer).2.getLast? = some f →
        f.lsn + max - 1 < 2 ^ 31 := by
    intro f hf
    obtain rfl := Option.some.inj (List.getLast?_concat.symm.trans hf)
    exact hnew
  have hold : ∀ f, s.handler.files.getLast? = some f → f.lsn + max - 1 < 2 ^ 31 := fun f hf =>
    h.fits f (List.mem_of_getLast? hf)
  unfold LogHistory.Fits LogFileManager.fileToWrite
  dsimp only
  split
  · split
    · rename_i hrc
      obtain ⟨hpos, hfull⟩ := h.full hrc
      have hle : 1 ≤ s.written.length * max := Nat.mul_pos hpos hmax
      have hroom := hnext hrc (by omega)
      refine hconcat ?_
      rw [h.nextLsn, ← Nat.cast_mul]
      omega
    · unfold LogFileManager.lastFile
      cases hl : (s.manager max).files.getLast? with
      | none =>
        have hnil := List.getLast?_eq_none_iff.mp hl
        have hlen := h.bytes.length_eq
        rw [show s.handler.files = [] from hnil] at hlen
        have hwritten : s.written = [] := List.length_eq_zero_iff.mp hlen.symm
        refine hconcat ?_
        rw [h.nextLsn, hwritten, List.length_nil]
        omega
      | some g =>
        exact hold
  · exact hold

/-- The only entry of the buffer goes to the open file or finds it full. -/
theorem Laid.turn_one (h : Laid max s) (hmax : 0 < max) (hfit : s.Fits max .turn) {e : LogEntry}
    (hentries : s.handler.entries = [e]) (hsize : 0 < e.payloadSize) :
    ∃ s', s.turn max = .ok s' ∧ Laid max s' ∧
      (s'.handler.entries = [] ∧ s'.written.flatten = s.written.flatten ++ [e] ∧
          s'.handler.rc = .success ∨
        s'.handler.entries = [e] ∧ s'.written.flatten = s.written.flatten ∧
          s'.handler.rc = .logFileFull ∧ s.handler.rc ≠ .logFileFull) := by
  obtain ⟨s₁, hopen⟩ := h.opened hmax hfit
  -- the entry has the LSN behind everything that is written
  have hlsn : e.lsn = s.written.flatten.length + 1 := by
    refine h.numbered _ e ?_
    unfold LogHistory.log
    rw [hentries, List.getElem?_append_right (Nat.le_refl _), Nat.sub_self]
    rfl
  obtain ⟨hpos, hend⟩ := hopen.laid.writer hopen.valid
  have hlast := hopen.laid.lastLsn
  rw [hopen.flatten] at hlast
  have hflush {fl : Flushed} (h : flush s₁.handler.writer s₁.handler.files [e] = .ok fl) :
      flush s₁.handler.writer s₁.handler.files s₁.handler.entries = .ok fl := by
    rw [hopen.entries, hentries]
    exact h
  have hassert : ¬ ¬ (e.lsn > 0 ∧ e.payloadSize > 0) := not_not.mpr ⟨by omega, hsize⟩
  -- the entry does not fit in the file, or it is written
  by_cases hfull : e.lsn > s₁.handler.writer.endLsn
  · have hwrite : s₁.handler.writer.write s₁.handler.files e = .error .logFileFull := if_pos hfull
    have hflush := hflush (by rw [flush, if_neg hassert, hwrite])
    obtain ⟨heq, hlaid, hflat⟩ := hopen.laid.flushed hopen.valid hflush
    refine ⟨_, hopen.turn.trans heq, hlaid, Or.inr ⟨rfl, ?_, rfl, fun hrc => ?_⟩⟩
    · rw [hflat, hopen.flatten, List.append_nil]
    -- the file was just opened, so this cannot happen a second time
    · have hmore := hopen.more hrc
      obtain ⟨hwritten, hcount⟩ := h.full hrc
      have hle : 1 ≤ s.written.length * max := Nat.mul_pos hwritten hmax
      rw [hend, hmore, ← Nat.cast_mul, Nat.add_mul, Nat.one_mul] at hfull
      omega
  · have hwrite : s₁.handler.writer.write s₁.handler.files e
        = .ok ({ s₁.handler.writer with lastLsn := int32 e.lsn },
            LogFileWriter.appendLast s₁.handler.files e.toBytes) := by
      unfold LogFileWriter.write
      rw [if_neg hfull, if_neg (by rw [hopen.valid]; exact Bool.false_ne_true), if_neg (by omega)]
    have hflush := hflush (by rw [flush, if_neg hassert, hwrite]; rfl)
    obtain ⟨heq, hlaid, hflat⟩ := hopen.laid.flushed hopen.valid hflush
    refine ⟨_, hopen.turn.trans heq, hlaid, Or.inl ⟨rfl, ?_, rfl⟩⟩
    rw [hflat, hopen.flatten]

/-- As long as the files end before 2^31, any number of entries gets into them. -/
theorem exists_stored (n : Nat) (hn : n < 2147483000) :
    ∃ s, Reachable (LogHistory.place 1000) NoRestart .empty s ∧
    Laid 1000 s ∧ s.handler.entries = [] ∧ s.written.flatten.length = n ∧ s.handler.rc = .success := by
  induction n with
  | zero => exact ⟨.empty, .init, laid_empty, rfl, rfl, rfl⟩
  | succ n ih =>
    obtain ⟨s, hreach, hlaid, hentries, hcount, -⟩ := ih (by omega)
    have hmax : 0 < 1000 := by decide
    have happend := hlaid.append .bufferPool [7]
    have hreach := hreach.next (.append .bufferPool [7]) (fun _ => PlacementAction.noConfusion) rfl
    have hbuffer : (s.handler.append .bufferPool [7]).2.entries = [⟨s.handler.currentLsn + 1, 0, [7]⟩] := by
      show s.handler.entries ++ _ = _
      rw [hentries]
      rfl
    generalize hs₀ : ({ s with handler := (s.handler.append .bufferPool [7]).2 } : LogHistory) = s₀
      at happend hreach
    have hcount₀ : s₀.written.flatten.length = n := by rw [← hs₀, hcount]
    have hentries₀ : s₀.handler.entries = [⟨s.handler.currentLsn + 1, 0, [7]⟩] := by rw [← hs₀, hbuffer]
    have hfit (t : LogHistory) (ht : Laid 1000 t) (hcount : t.written.flatten.length = n) :
        t.Fits 1000 .turn := by
      refine ht.fits_turn hmax (fun _ => ?_) (by decide)
      rw [hcount]
      omega
    have hturn {t t' : LogHistory} (h : t.turn 1000 = .ok t') : t.place 1000 .turn = .ok ((), t') := by
      unfold LogHistory.place
      rw [h]
      rfl
    obtain ⟨s₁, hs₁, hlaid₁, hcases⟩ :=
      happend.turn_one hmax (hfit s₀ happend hcount₀) hentries₀ Int.one_pos
    have hreach := hreach.next .turn (fun _ => PlacementAction.noConfusion) (hturn hs₁)
    rcases hcases with ⟨hnil, hflat, hrc⟩ | ⟨hentries₁, hflat, hrc, -⟩
    · exact ⟨s₁, hreach, hlaid₁, hnil, by rw [hflat, List.length_append, hcount₀]; rfl, hrc⟩
    · have hcount₁ : s₁.written.flatten.length = n := by rw [hflat, hcount₀]
      obtain ⟨s₂, hs₂, hlaid₂, hcases⟩ :=
        hlaid₁.turn_one hmax (hfit s₁ hlaid₁ hcount₁) hentries₁ Int.one_pos
      have hreach := hreach.next .turn (fun _ => PlacementAction.noConfusion) (hturn hs₂)
      rcases hcases with ⟨hnil, hflat, hrc⟩ | ⟨-, -, -, hne⟩
      · exact ⟨s₂, hreach, hlaid₂, hnil, by rw [hflat, List.length_append, hcount₁]; rfl, hrc⟩
      · exact absurd hrc hne

variable (max) in
/-- The next file is full as well. -/
theorem turn_wrapped {e : LogEntry} (hlen : s.handler.files.length = s.written.length)
    (hrc : s.handler.rc = .logFileFull) (hentries : s.handler.entries = [e])
    (hpos : 0 < e.lsn ∧ 0 < e.payloadSize) (hend : int32 ((s.manager max).nextLsn + max - 1) < e.lsn) :
    ∃ s', s.place max .turn = .ok ((), s') ∧ s'.handler.rc = .logFileFull ∧ s'.handler.entries = [e] ∧
      s'.handler.files = s.handler.files ++ [⟨(s.manager max).nextLsn, []⟩] ∧
      s'.written = s.written ++ [[]] := by
  have hfile : (s.manager max).fileToWrite s.handler.writer s.handler.rc
      = (s.manager max).nextFile s.handler.writer := by
    unfold LogFileManager.fileToWrite
    rw [if_pos (Or.inr hrc), if_pos hrc]
  have hwrite : ((s.manager max).openFile s.handler.writer (s.manager max).nextLsn).write
      ((s.manager max).files ++ [⟨(s.manager max).nextLsn, []⟩]) e = .error .logFileFull := by
    unfold LogFileWriter.write
    exact if_pos hend
  obtain ⟨fl, hfl⟩ : ∃ fl : Flushed, fl = ⟨.logFileFull,
      (s.manager max).openFile s.handler.writer (s.manager max).nextLsn,
      s.handler.files ++ [⟨(s.manager max).nextLsn, []⟩], [], [e]⟩ := ⟨_, rfl⟩
  have hflush : flush ((s.manager max).openFile s.handler.writer (s.manager max).nextLsn)
      ((s.manager max).files ++ [⟨(s.manager max).nextLsn, []⟩]) [e] = .ok fl := by
    rw [flush, if_neg (not_not.mpr hpos), hwrite, hfl]
    rfl
  refine ⟨s.write (s.handler.afterFlush fl) fl.written, ?_, by rw [hfl]; rfl, by rw [hfl]; rfl,
    by rw [hfl]; rfl, ?_⟩
  · show (s.turn max >>= _) = _
    unfold LogHistory.turn
    rw [hfile, hentries]
    unfold LogFileManager.nextFile
    dsimp only
    rw [hflush]
    rfl
  · rw [hfl]
    unfold LogHistory.write DiskLogHandler.afterFlush
    dsimp only
    rw [if_pos (by rw [List.length_append, List.length_singleton]; omega), List.getLast?_concat,
      List.dropLast_concat]
    rfl

/-- The entry 2147483000 is never written: the file 2147483000 is full from the start, and the thread goes
    on to the next one. -/
theorem file_full_from_start :
    ¬ ∀ s, Reachable (LogHistory.place 1000) NoRestart .empty s → s.Placed 1000 := by
  intro hall
  obtain ⟨s, hreach, hlaid, hnil, hcount, hrc⟩ := exists_stored 2147482999 (by decide)
  have happend := hlaid.append .bufferPool [7]
  have hreach := hreach.next (.append .bufferPool [7]) (fun _ => PlacementAction.noConfusion) rfl
  have hentries : (s.handler.append .bufferPool [7]).2.entries = [⟨s.handler.currentLsn + 1, 0, [7]⟩] := by
    show s.handler.entries ++ _ = _
    rw [hnil]
    rfl
  have hcurrent : s.handler.currentLsn = 2147482999 := by
    rw [hlaid.current, LogHistory.log, hnil, List.append_nil, hcount]
    rfl
  rw [hcurrent] at hentries
  generalize hs₀ : ({ s with handler := (s.handler.append .bufferPool [7]).2 } : LogHistory) = s₀
    at happend hreach
  have hcount₀ : s₀.written.flatten.length = 2147482999 := by rw [← hs₀, hcount]
  have hentries₀ : s₀.handler.entries = [⟨2147483000, 0, [7]⟩] := by
    rw [← hs₀, hentries]
    rfl
  have hne : s₀.handler.rc ≠ .logFileFull := by
    rw [← hs₀]
    show s.handler.rc ≠ _
    rw [hrc]
    exact RC.noConfusion
  -- The last file whose LSNs fit into an `int` has no room for it.
  obtain ⟨s₁, hs₁, hlaid₁, hcases⟩ := happend.turn_one (by decide)
    (happend.fits_turn (by decide) (fun h => absurd h hne) (by decide)) hentries₀ Int.one_pos
  have hreach := hreach.next .turn (fun _ => PlacementAction.noConfusion)
    (show s₀.place 1000 .turn = .ok ((), s₁) by unfold LogHistory.place; rw [hs₁]; rfl)
  have hlen := hlaid₁.bytes.length_eq
  rcases hcases with ⟨-, hflat, -⟩ | ⟨hentries₁, hflat, hrc₁, -⟩
  · have hroom := hlaid₁.room
    rw [hflat, List.length_append, hcount₀, List.length_singleton] at hroom
    cases hl : s₁.handler.files.getLast? with
    | none =>
      rw [List.getLast?_eq_none_iff.mp hl, List.length_nil] at hlen
      omega
    | some f =>
      have hname := (hlaid₁.last hl).2
      have hfit := hlaid₁.fits f (List.mem_of_getLast? hl)
      omega
  · have hfull := (hlaid₁.full hrc₁).2
    rw [hflat, hcount₀] at hfull
    have hlsn : (s₁.manager 1000).nextLsn = 2147483000 := by
      rw [hlaid₁.nextLsn]
      omega
    obtain ⟨s₂, hs₂, hrc₂, hentries₂, hfiles₂, hwritten₂⟩ :=
      turn_wrapped 1000 hlen hrc₁ hentries₁ (by decide) (by rw [hlsn]; decide)
    have hlsn₂ : (s₂.manager 1000).nextLsn = 2147484000 := by
      unfold LogFileManager.nextLsn LogHistory.manager
      rw [hfiles₂, List.getLast?_concat, hlsn]
      rfl
    obtain ⟨s₃, hs₃, -, -, -, hwritten₃⟩ :=
      turn_wrapped 1000 (by rw [hfiles₂, hwritten₂, List.length_append, List.length_append, hlen]; rfl)
        hrc₂ hentries₂ (by decide) (by rw [hlsn₂]; decide)
    have hreach := (hreach.next .turn (fun _ => PlacementAction.noConfusion) hs₂).next .turn
      (fun _ => PlacementAction.noConfusion) hs₃
    rw [hwritten₂, List.append_assoc] at hwritten₃
    have hempty := (hall s₃ hreach).full s₁.written.length [] (by
      rw [hwritten₃, List.getElem?_append_right (Nat.le_refl _), Nat.sub_self]
      rfl) (by
      rw [hwritten₃, List.length_append]
      exact Nat.lt_succ_self _)
    unfold LogHistory.firstLsn at hempty
    rw [List.length_nil] at hempty
    split at hempty <;> omega

end Laid

end Miniob.Clog
