/-
  The log buffer under threads that append to it while one thread flushes it
  (src/observer/storage/clog/log_buffer.cpp, and `thread_func` in disk_log_handler.cpp).

  * `append` takes the lock once.  What it counts is the size of an entry it has moved away, and that is the
    size of a header.
  * `flush` takes the lock to pop an entry and once more to put it back when the write has failed; the write
    itself is made without the lock.  An entry that is put back is not counted again.
  * A write may fail at any time, behind any number of bytes.
  * There is one thread that flushes, as in `DiskLogHandler`.

  Left out: `append` waiting while the buffer is large, which it decides before it takes the lock, and files
  that cannot be opened.
-/
import Miniob.Clog.DiskLogHandler

namespace Miniob.Clog

open Miniob.Common Miniob.Storage

/-! ## Threads -/

/-- `total_size`. -/
def LogEntry.totalSize (e : LogEntry) : Int := LogHeader.headerSize + e.payloadSize

/-- What is left of an entry when it has been moved. -/
def LogEntry.moved (e : LogEntry) : LogEntry := ⟨0, e.moduleId, []⟩

/-- Where the thread is that flushes. -/
inductive FlushPoint where
  /-- In `thread_func`. -/
  | outside
  /-- At the beginning of the loop of `flush`. -/
  | loop
  /-- The entry has been popped and is written. -/
  | popped (entry : LogEntry)

/-- The buffer, the handler below it, and where the thread is. -/
structure LogEntryBuffer where
  /-- `entries_`, `current_lsn_` and `flushed_lsn_`, with the files and the writer of the thread. -/
  handler : DiskLogHandler
  /-- `bytes_`. -/
  bytes : Int
  point : FlushPoint
  /-- All entries that were appended, and those whose write has succeeded. -/
  appended : List LogEntry
  written : List LogEntry

inductive BufferAction where
  | append (module : LogModule) (data : List UInt8)
  /-- The next step of the thread.  A write breaks off behind so many bytes, if there is a number. -/
  | thread (breaksOff : Option Nat)

namespace LogEntryBuffer

variable (s : LogEntryBuffer)

/-- `init`, on these files. -/
def init (files : List LogFile) (lsn : Int) : LogEntryBuffer := ⟨.started files lsn, 0, .outside, [], []⟩

/-- `append`: the entry is numbered, and waits in the buffer. -/
def append (module : LogModule) (data : List UInt8) : LogEntryBuffer :=
  match LogEntry.init 0 module.index data with
  | .error _ => s
  | .ok entry =>
    let entry := { entry with lsn := s.handler.currentLsn + 1 }
    { s with
      handler := (s.handler.append module data).2
      bytes := s.bytes + entry.moved.totalSize
      appended := s.appended ++ [entry] }

/-- A write has failed: the entry is put back, and `flush` returns. -/
def putBack (entry : LogEntry) (rc : RC) (files : List LogFile) : LogEntryBuffer :=
  { s with
    handler := { s.handler with rc, files, entries := entry :: s.handler.entries }
    point := .outside }

/-- The write of an entry that has been popped. -/
def write (entry : LogEntry) (breaksOff : Option Nat) : LogEntryBuffer :=
  match s.handler.writer.write s.handler.files entry, breaksOff with
  | .error rc, _ => s.putBack entry rc s.handler.files
  | .ok _, some k =>
    s.putBack entry .ioerrWrite (LogFileWriter.appendLast s.handler.files (entry.toBytes.take k))
  | .ok (writer, files), none =>
    { s with
      handler := { s.handler with writer, files, flushedLsn := entry.lsn }
      point := .loop
      written := s.written ++ [entry] }

/-- The next step of the thread. -/
def next (breaksOff : Option Nat) : Except LogFault LogEntryBuffer :=
  match s.point with
  | .outside =>
    let (writer, files) := s.handler.openFile
    .ok { s with handler := { s.handler with writer, files }, point := .loop }
  | .loop =>
    match s.handler.entries with
    | [] => .ok { s with handler := { s.handler with rc := .success }, point := .outside }
    | entry :: entries =>
      if ¬ (entry.lsn > 0 ∧ entry.payloadSize > 0) then .error .assertion
      else
        .ok { s with
          handler := { s.handler with entries }
          bytes := s.bytes - entry.totalSize
          point := .popped entry }
  | .popped entry => .ok (s.write entry breaksOff)

def step : BufferAction → Except LogFault LogEntryBuffer
  | .append module data => .ok (s.append module data)
  | .thread breaksOff => s.next breaksOff

def run : LogEntryBuffer → List BufferAction → Except LogFault LogEntryBuffer
  | s, [] => .ok s
  | s, a :: as => do
    let s ← s.step a
    run s as

/-! ## What the buffer is for -/

/-- The entry that is being written. -/
def inFlight : List LogEntry :=
  match s.point with
  | .popped entry => [entry]
  | _ => []

/-- The sum of the sizes. -/
def totalSizes (es : List LogEntry) : Int := (es.map LogEntry.totalSize).sum

/-- The bytes of the files, one behind the other. -/
def logBytes (files : List LogFile) : List UInt8 := files.flatMap LogFile.bytes

/-- These bytes are the entries, with beginnings of entries in between. -/
inductive Wrote : List UInt8 → List LogEntry → Prop where
  | nil : Wrote [] []
  | entry {bytes : List UInt8} {es : List LogEntry} (e : LogEntry) (h : Wrote bytes es) :
      Wrote (bytes ++ e.toBytes) (es ++ [e])
  | torn {bytes : List UInt8} {es : List LogEntry} (e : LogEntry) (k : Nat) (h : Wrote bytes es) :
      Wrote (bytes ++ e.toBytes.take k) es

section Spec

variable (files : List LogFile) (lsn : Int)

/-- No entry is lost, written twice or out of order, and the flushed LSN is that of the last one written. -/
structure InOrder (s : LogEntryBuffer) : Prop where
  /-- Written, taken out by the flush thread, waiting: together what was appended. -/
  order : s.written ++ s.inFlight ++ s.handler.entries = s.appended
  /-- The LSNs follow that of the log when it was opened. -/
  numbered : ∀ (i : Nat) e, s.appended[i]? = some e → e.lsn = lsn + i + 1
  /-- The files have grown by the entries that are written. -/
  onDisk : ∃ bytes, logBytes s.handler.files = logBytes files ++ bytes ∧ Wrote bytes s.written
  /-- The flushed LSN is that of the last of them. -/
  flushed : s.handler.flushedLsn = (s.written.getLast?.map LogEntry.lsn).getD lsn

/-- And `bytes_` is the size of what is in the buffer. -/
structure Correct (s : LogEntryBuffer) : Prop extends InOrder files lsn s where
  bytes : s.bytes = totalSizes s.handler.entries

end Spec

/-- Every state of the run is such a one, and no step takes the flushed LSN back. -/
def Throughout (P : LogEntryBuffer → Prop) : LogEntryBuffer → List BufferAction → Prop
  | s, [] => P s
  | s, a :: as => P s ∧ ∀ s', s.step a = .ok s' →
      s.handler.flushedLsn ≤ s'.handler.flushedLsn ∧ Throughout P s' as

/-- An append of an entry that is refused or has no payload. -/
def BringsNothing : BufferAction → Prop
  | .append _ data => data = [] ∨ (data.length : Int) > LogEntry.maxPayloadSize
  | .thread _ => True

/-! ## One step -/

variable {s} {s' : LogEntryBuffer} {files : List LogFile} {lsn : Int} {module : LogModule}
  {data : List UInt8}

/-- The file of the writer is among the files. -/
def Opened (handler : DiskLogHandler) : Prop := handler.writer.valid = true → handler.files ≠ []

theorem logBytes_concat (fs : List LogFile) (f : LogFile) :
    logBytes (fs ++ [f]) = logBytes fs ++ f.bytes := by
  unfold logBytes
  rw [List.flatMap_append, List.flatMap_singleton]

theorem logBytes_appendLast {fs : List LogFile} (h : fs ≠ []) (bytes : List UInt8) :
    logBytes (LogFileWriter.appendLast fs bytes) = logBytes fs ++ bytes ∧
      LogFileWriter.appendLast fs bytes ≠ [] := by
  obtain ⟨init, hinit⟩ := List.getLast?_eq_some_iff.mp (List.getLast?_eq_some_getLast h)
  generalize fs.getLast h = f at hinit
  subst hinit
  rw [LogFileWriter.appendLast_concat, logBytes_concat, logBytes_concat, List.append_assoc]
  exact ⟨rfl, List.concat_ne_nil _ _⟩

/-- A file that is opened is an old one or a new one that is empty. -/
theorem openFile_opened {h : DiskLogHandler} (hopen : Opened h) :
    logBytes h.openFile.2 = logBytes h.files ∧ h.openFile.2 ≠ [] := by
  have hnext : ∀ w : LogFileWriter, logBytes (w.nextFile h.files).2 = logBytes h.files ∧
      (w.nextFile h.files).2 ≠ [] := fun w =>
    ⟨(logBytes_concat h.files _).trans (List.append_nil _), List.concat_ne_nil _ _⟩
  unfold DiskLogHandler.openFile
  by_cases hfull : h.rc = .logFileFull
  · rw [if_pos (Or.inr hfull), if_pos hfull]
    exact hnext _
  · cases hvalid : h.writer.valid with
    | false =>
      rw [if_pos (Or.inl rfl), if_neg hfull]
      unfold LogFileWriter.lastFile
      cases hl : h.files.getLast? with
      | none => exact hnext _
      | some f =>
        refine ⟨rfl, fun hnil => ?_⟩
        have hfiles : h.files = [] := hnil
        rw [hfiles] at hl
        cases hl
    | true =>
      rw [if_neg (by rw [not_or]; exact ⟨Bool.noConfusion, hfull⟩)]
      exact ⟨rfl, hopen hvalid⟩

/-- An append that is accepted puts one more entry at the end of the buffer. -/
theorem append_accepted (h : ¬ (data.length : Int) > LogEntry.maxPayloadSize) :
    s.append module data =
      let entry : LogEntry := ⟨s.handler.currentLsn + 1, module.index, data⟩
      { s with
        handler := { s.handler with
          currentLsn := s.handler.currentLsn + 1
          entries := s.handler.entries ++ [entry] }
        bytes := s.bytes + LogHeader.headerSize
        appended := s.appended ++ [entry] } := by
  have hinit : LogEntry.init 0 module.index data = .ok ⟨0, module.index, data⟩ := if_neg h
  have hhandler : s.handler.append module data = (.success, { s.handler with
      currentLsn := s.handler.currentLsn + 1
      entries := s.handler.entries ++ [⟨s.handler.currentLsn + 1, module.index, data⟩] }) := by
    unfold DiskLogHandler.append
    rw [hinit]
  unfold append
  rw [hinit, hhandler]
  rfl

theorem append_refused (h : (data.length : Int) > LogEntry.maxPayloadSize) :
    s.append module data = s := by
  have hinit : LogEntry.init 0 module.index data = .error .invalidArgument := if_pos h
  unfold append
  rw [hinit]

/-- What a step of the thread does to the entries, the counters and the bytes of the files. -/
inductive Moves (s : LogEntryBuffer) : LogEntryBuffer → Prop where
  /-- It has opened a file, or found the buffer empty. -/
  | idle (writer : LogFileWriter) (files : List LogFile) (rc : RC) (point : FlushPoint)
      (hflight : s.inFlight = []) (hpoint : ∀ entry, point ≠ .popped entry)
      (hfiles : logBytes files = logBytes s.handler.files) :
      Moves s { s with handler := { s.handler with writer, files, rc }, point }
  /-- It has popped the first entry, which has a payload. -/
  | pop (entry : LogEntry) (entries : List LogEntry) (hflight : s.inFlight = [])
      (hentries : s.handler.entries = entry :: entries) (hpayload : 0 < entry.payloadSize) :
      Moves s { s with
        handler := { s.handler with entries }
        bytes := s.bytes - entry.totalSize
        point := .popped entry }
  /-- The write has failed. -/
  | putBack (entry : LogEntry) (rc : RC) (files : List LogFile) (k : Nat)
      (hpoint : s.point = .popped entry)
      (hfiles : logBytes files = logBytes s.handler.files ++ entry.toBytes.take k) :
      Moves s (s.putBack entry rc files)
  /-- The write has succeeded. -/
  | write (entry : LogEntry) (writer : LogFileWriter) (files : List LogFile)
      (hpoint : s.point = .popped entry)
      (hfiles : logBytes files = logBytes s.handler.files ++ entry.toBytes) :
      Moves s { s with
        handler := { s.handler with writer, files, flushedLsn := entry.lsn }
        point := .loop
        written := s.written ++ [entry] }

/-- A write takes the entry that was popped to the file, or fails. -/
theorem write_moves {entry : LogEntry} (hopen : Opened s.handler) (hpoint : s.point = .popped entry)
    (breaksOff : Option Nat) :
    Moves s (s.write entry breaksOff) ∧ Opened (s.write entry breaksOff).handler := by
  unfold write
  cases hw : s.handler.writer.write s.handler.files entry with
  | error rc => exact ⟨.putBack entry rc _ 0 hpoint (List.append_nil _).symm, hopen⟩
  | ok out =>
    obtain ⟨writer, files⟩ := out
    obtain ⟨-, hvalid, -, rfl⟩ := LogFileWriter.write_ok hw
    cases breaksOff with
    | none =>
      obtain ⟨hbytes, hne⟩ := logBytes_appendLast (hopen hvalid) entry.toBytes
      exact ⟨.write entry writer _ hpoint hbytes, fun _ => hne⟩
    | some k =>
      obtain ⟨hbytes, hne⟩ := logBytes_appendLast (hopen hvalid) (entry.toBytes.take k)
      exact ⟨.putBack entry _ _ k hpoint hbytes, fun _ => hne⟩

/-- One step of the thread moves at most one entry. -/
theorem next_moves {breaksOff : Option Nat} (hopen : Opened s.handler)
    (h : s.next breaksOff = .ok s') : Moves s s' ∧ Opened s'.handler := by
  unfold next at h
  cases hpoint : s.point with
  | outside =>
    rw [hpoint] at h
    obtain rfl := Except.ok.inj h
    have hflight : s.inFlight = [] := by
      unfold inFlight
      rw [hpoint]
    obtain ⟨hbytes, hne⟩ := openFile_opened hopen
    exact ⟨.idle _ _ s.handler.rc .loop hflight (fun _ => FlushPoint.noConfusion) hbytes, fun _ => hne⟩
  | popped entry =>
    rw [hpoint] at h
    obtain rfl := Except.ok.inj h
    exact write_moves hopen hpoint breaksOff
  | loop =>
    have hflight : s.inFlight = [] := by
      unfold inFlight
      rw [hpoint]
    rw [hpoint] at h
    cases hentries : s.handler.entries with
    | nil =>
      simp only [hentries] at h
      obtain rfl := Except.ok.inj h
      rw [← hentries]
      exact ⟨.idle _ _ .success .outside hflight (fun _ => FlushPoint.noConfusion) rfl, hopen⟩
    | cons entry entries =>
      simp only [hentries] at h
      by_cases hvalid : entry.lsn > 0 ∧ entry.payloadSize > 0
      · rw [if_neg (not_not_intro hvalid)] at h
        obtain rfl := Except.ok.inj h
        exact ⟨.pop entry entries hflight hentries hvalid.2, hopen⟩
      · rw [if_pos hvalid] at h
        cases h

/-! ## No entry is lost -/

/-- The invariant: what was appended is numbered on from `lsn`, and so is what was written. -/
structure Kept (files : List LogFile) (lsn : Int) (s : LogEntryBuffer) : Prop where
  /-- Written, taken out by the flush thread, waiting: together what was appended. -/
  order : s.written ++ s.inFlight ++ s.handler.entries = s.appended
  numbered : ∀ (i : Nat) e, s.appended[i]? = some e → e.lsn = lsn + i + 1
  onDisk : ∃ bytes, logBytes s.handler.files = logBytes files ++ bytes ∧ Wrote bytes s.written
  /-- The current LSN counts the entries appended. -/
  current : s.handler.currentLsn = lsn + s.appended.length
  /-- The flushed one counts those written. -/
  flushed : s.handler.flushedLsn = lsn + s.written.length
  opened : Opened s.handler

/-- Nothing waits at the start. -/
theorem kept_init (files : List LogFile) (lsn : Int) : Kept files lsn (init files lsn) where
  order := rfl
  numbered := by
    intro i e he
    have hnil : (init files lsn).appended = [] := rfl
    rw [hnil, List.getElem?_nil] at he
    cases he
  onDisk := ⟨[], (List.append_nil _).symm, .nil⟩
  current := (Int.add_zero lsn).symm
  flushed := (Int.add_zero lsn).symm
  opened := fun h => Bool.noConfusion h

/-- The entry in the hands of the thread is the one behind those that are written. -/
theorem Kept.popped_lsn (h : Kept files lsn s) {entry : LogEntry} (hpoint : s.point = .popped entry) :
    entry.lsn = lsn + s.written.length + 1 := by
  have hflight : s.inFlight = [entry] := by
    unfold inFlight
    rw [hpoint]
  have horder := h.order
  rw [hflight, List.append_assoc, List.singleton_append] at horder
  refine h.numbered s.written.length entry ?_
  rw [← horder, List.getElem?_append_right (Nat.le_refl _), Nat.sub_self, List.getElem?_cons_zero]

/-- The invariant says in which order the entries are. -/
theorem Kept.inOrder (h : Kept files lsn s) : InOrder files lsn s where
  order := h.order
  numbered := h.numbered
  onDisk := h.onDisk
  flushed := by
    rw [h.flushed]
    cases hlast : s.written.getLast? with
    | none =>
      rw [List.getLast?_eq_none_iff.mp hlast]
      exact Int.add_zero lsn
    | some e =>
      obtain ⟨l, hl⟩ := List.getLast?_eq_some_iff.mp hlast
      have horder := h.order
      rw [hl, List.append_assoc, List.append_assoc, List.singleton_append] at horder
      have he : e.lsn = lsn + l.length + 1 := by
        refine h.numbered l.length e ?_
        rw [← horder, List.getElem?_append_right (Nat.le_refl _), Nat.sub_self, List.getElem?_cons_zero]
      show _ = e.lsn
      rw [he, hl, List.length_append, List.length_singleton]
      omega

/-- The new entry has the next number, and is the last one. -/
theorem Kept.append (h : Kept files lsn s) (module : LogModule) (data : List UInt8) :
    Kept files lsn (s.append module data) := by
  by_cases hlarge : (data.length : Int) > LogEntry.maxPayloadSize
  · rw [append_refused hlarge]
    exact h
  · rw [append_accepted hlarge]
    exact {
      order := by
        show s.written ++ s.inFlight ++ (s.handler.entries ++ [_]) = s.appended ++ [_]
        rw [← List.append_assoc, h.order]
      numbered := by
        intro i e he
        rcases Nat.lt_trichotomy i s.appended.length with hlt | heq | hgt
        · rw [List.getElem?_append_left hlt] at he
          exact h.numbered i e he
        · rw [heq, List.getElem?_append_right (Nat.le_refl _), Nat.sub_self, List.getElem?_cons_zero] at he
          obtain rfl := Option.some.inj he
          show s.handler.currentLsn + 1 = _
          rw [h.current, heq]
        · rw [List.getElem?_eq_none (by rw [List.length_append, List.length_singleton]; omega)] at he
          cases he
      onDisk := h.onDisk
      current := by
        show s.handler.currentLsn + 1 = lsn + (s.appended ++ [_]).length
        rw [h.current, List.length_append, List.length_singleton]
        omega
      flushed := h.flushed
      opened := h.opened }

/-- The entries lie where they have lain, or the first of them has moved on. -/
theorem Kept.moves_order (h : Kept files lsn s) (hm : Moves s s') :
    s'.written ++ s'.inFlight ++ s'.handler.entries = s'.appended := by
  have horder := h.order
  cases hm with
  | idle writer fs rc point hflight hpoint _ =>
    have hflight' : inFlight { s with handler := { s.handler with writer, files := fs, rc }, point } = [] := by
      cases point with
      | popped entry => exact absurd rfl (hpoint entry)
      | outside => rfl
      | loop => rfl
    rw [hflight', ← hflight]
    exact horder
  | pop entry entries hflight hentries _ =>
    rw [hflight, List.append_nil, hentries] at horder
    show s.written ++ [entry] ++ entries = s.appended
    rw [List.append_assoc, List.singleton_append, horder]
  | putBack entry rc fs k hpoint _ =>
    unfold inFlight at horder
    rw [hpoint, List.append_assoc, List.singleton_append] at horder
    show s.written ++ [] ++ entry :: s.handler.entries = s.appended
    rw [List.append_nil, horder]
  | write entry writer fs hpoint _ =>
    unfold inFlight at horder
    rw [hpoint] at horder
    show s.written ++ [entry] ++ [] ++ s.handler.entries = s.appended
    rw [List.append_nil, horder]

/-- A write adds its entry to the files, or a beginning of it. -/
theorem Kept.moves_onDisk (h : Kept files lsn s) (hm : Moves s s') :
    ∃ bytes, logBytes s'.handler.files = logBytes files ++ bytes ∧ Wrote bytes s'.written := by
  obtain ⟨bytes, hbytes, hwrote⟩ := h.onDisk
  cases hm with
  | idle _ _ _ _ _ _ hfiles => exact ⟨bytes, hfiles.trans hbytes, hwrote⟩
  | pop _ _ _ _ _ => exact ⟨bytes, hbytes, hwrote⟩
  | putBack entry rc fs k _ hfiles =>
    refine ⟨bytes ++ entry.toBytes.take k, ?_, hwrote.torn entry k⟩
    rw [← List.append_assoc, ← hbytes]
    exact hfiles
  | write entry writer fs _ hfiles =>
    refine ⟨bytes ++ entry.toBytes, ?_, hwrote.entry entry⟩
    rw [← List.append_assoc, ← hbytes]
    exact hfiles

/-- An entry that moves keeps its place in the order. -/
theorem Kept.moves (h : Kept files lsn s) (hm : Moves s s') (hopen : Opened s'.handler) :
    Kept files lsn s' where
  order := h.moves_order hm
  numbered := by
    cases hm with
    | idle _ _ _ _ _ _ _ => exact h.numbered
    | pop _ _ _ _ _ => exact h.numbered
    | putBack _ _ _ _ _ _ => exact h.numbered
    | write _ _ _ _ _ => exact h.numbered
  onDisk := h.moves_onDisk hm
  current := by
    cases hm with
    | idle _ _ _ _ _ _ _ => exact h.current
    | pop _ _ _ _ _ => exact h.current
    | putBack _ _ _ _ _ _ => exact h.current
    | write _ _ _ _ _ => exact h.current
  flushed := by
    cases hm with
    | idle _ _ _ _ _ _ _ => exact h.flushed
    | pop _ _ _ _ _ => exact h.flushed
    | putBack _ _ _ _ _ _ => exact h.flushed
    | write entry writer fs hpoint _ =>
      show entry.lsn = lsn + (s.written ++ [entry]).length
      rw [h.popped_lsn hpoint, List.length_append, List.length_singleton]
      omega
  opened := hopen

/-- The flushed LSN only goes on. -/
theorem Kept.flushed_le (h : Kept files lsn s) (hm : Moves s s') :
    s.handler.flushedLsn ≤ s'.handler.flushedLsn := by
  cases hm with
  | idle _ _ _ _ _ _ _ => exact Int.le_refl _
  | pop _ _ _ _ _ => exact Int.le_refl _
  | putBack _ _ _ _ _ _ => exact Int.le_refl _
  | write entry writer fs hpoint _ =>
    show s.handler.flushedLsn ≤ entry.lsn
    rw [h.flushed, h.popped_lsn hpoint]
    omega

/-- The step lemma; the flushed LSN only goes up. -/
theorem Kept.step {a : BufferAction} (h : Kept files lsn s) (hs : s.step a = .ok s') :
    Kept files lsn s' ∧ s.handler.flushedLsn ≤ s'.handler.flushedLsn := by
  cases a with
  | append module data =>
    obtain rfl := Except.ok.inj hs
    refine ⟨h.append module data, Int.le_of_eq ?_⟩
    by_cases hlarge : (data.length : Int) > LogEntry.maxPayloadSize
    · rw [append_refused hlarge]
    · rw [append_accepted hlarge]
  | thread breaksOff =>
    obtain ⟨hm, hopen⟩ := next_moves h.opened hs
    exact ⟨h.moves hm hopen, h.flushed_le hm⟩

/-- What every step keeps holds throughout a run. -/
theorem Throughout.of_invariant {P I : LogEntryBuffer → Prop} {ok : BufferAction → Prop}
    (hI : ∀ s, I s → P s)
    (hstep : ∀ s a s', I s → ok a → s.step a = .ok s' →
      I s' ∧ s.handler.flushedLsn ≤ s'.handler.flushedLsn) :
    ∀ (as : List BufferAction) {s : LogEntryBuffer}, I s → (∀ a ∈ as, ok a) → Throughout P s as
  | [], s, hs, _ => hI s hs
  | a :: as, s, hs, hok => by
    refine ⟨hI s hs, fun s' hs' => ?_⟩
    obtain ⟨hi, hle⟩ := hstep s a s' hs (hok a List.mem_cons_self) hs'
    exact ⟨hle, Throughout.of_invariant hI hstep as hi fun a' ha' => hok a' (List.mem_cons_of_mem a ha')⟩

/-- In every run the entries are written in the order of their LSNs, each of them once. -/
theorem inOrder_throughout (files : List LogFile) (lsn : Int) (as : List BufferAction) :
    Throughout (InOrder files lsn) (init files lsn) as := by
  have hstep : ∀ s a s', Kept files lsn s → True → s.step a = .ok s' →
      Kept files lsn s' ∧ s.handler.flushedLsn ≤ s'.handler.flushedLsn := fun _ _ _ hs _ => hs.step
  exact Throughout.of_invariant (fun _ => Kept.inOrder) hstep as (kept_init files lsn) fun _ _ => trivial

/-! ## The count of the bytes -/

@[simp] theorem totalSizes_concat (es : List LogEntry) (e : LogEntry) :
    totalSizes (es ++ [e]) = totalSizes es + e.totalSize := by
  unfold totalSizes
  rw [List.map_append, List.sum_append, List.map_singleton, List.sum_singleton]

/-- The counter is right as long as no entry in the buffer has a payload; then none is ever popped. -/
structure Bare (files : List LogFile) (lsn : Int) (s : LogEntryBuffer) : Prop extends Kept files lsn s where
  empty : ∀ e ∈ s.handler.entries, e.payloadSize = 0
  inFlight : s.inFlight = []
  bytes : s.bytes = totalSizes s.handler.entries

theorem bare_init (files : List LogFile) (lsn : Int) : Bare files lsn (init files lsn) where
  toKept := kept_init files lsn
  empty := fun _ he => absurd he List.not_mem_nil
  inFlight := rfl
  bytes := rfl

/-- As long as there are only headers the counter is right. -/
theorem Bare.step {a : BufferAction} (h : Bare files lsn s) (ha : BringsNothing a)
    (hs : s.step a = .ok s') : Bare files lsn s' ∧ s.handler.flushedLsn ≤ s'.handler.flushedLsn := by
  obtain ⟨hkept, hle⟩ := h.toKept.step hs
  refine ⟨?_, hle⟩
  cases a with
  -- what is appended has no payload, or is refused
  | append module data =>
    obtain rfl := Except.ok.inj hs
    by_cases hlarge : (data.length : Int) > LogEntry.maxPayloadSize
    · rw [append_refused hlarge]
      exact h
    · obtain rfl : data = [] := ha.resolve_right hlarge
      rw [append_accepted hlarge] at hkept ⊢
      exact {
        toKept := hkept
        empty := by
          intro e he
          rcases List.mem_append.mp he with he | he
          · exact h.empty e he
          · obtain rfl := List.mem_singleton.mp he
            rfl
        inFlight := h.inFlight
        bytes := by
          show s.bytes + LogHeader.headerSize = totalSizes (s.handler.entries ++ [_])
          rw [h.bytes, totalSizes_concat]
          rfl }
  -- the thread never gets hold of an entry, since the first one is taken for the end of the buffer
  | thread breaksOff =>
    have hpoint : ∀ entry, s.point ≠ .popped entry := by
      intro entry hpoint
      have hflight := h.inFlight
      unfold LogEntryBuffer.inFlight at hflight
      rw [hpoint] at hflight
      cases hflight
    cases (next_moves h.opened hs).1 with
    | idle writer fs rc point hflight hidle _ =>
      exact {
        toKept := hkept
        empty := h.empty
        inFlight := by
          cases point with
          | popped entry => exact absurd rfl (hidle entry)
          | outside => rfl
          | loop => rfl
        bytes := h.bytes }
    -- an entry with a payload is popped; there is none
    | pop entry entries hflight hentries hpayload =>
      have := h.empty entry (by rw [hentries]; exact List.mem_cons_self)
      omega
    | putBack entry rc fs k hp _ => exact absurd hp (hpoint entry)
    | write entry writer fs hp _ => exact absurd hp (hpoint entry)

theorem Bare.correct (h : Bare files lsn s) : Correct files lsn s where
  toInOrder := h.toKept.inOrder
  bytes := h.bytes

/-- An append that brings a payload makes the counter wrong, or right where it was wrong before. -/
theorem bringsNothing_of_correct (h : Correct files lsn s) (h' : Correct files lsn (s.append module data)) :
    data = [] ∨ (data.length : Int) > LogEntry.maxPayloadSize := by
  by_cases hlarge : (data.length : Int) > LogEntry.maxPayloadSize
  · exact Or.inr hlarge
  · rw [append_accepted hlarge] at h'
    have hbytes := h'.bytes
    have hbefore := h.bytes
    simp only [totalSizes_concat, LogEntry.totalSize, LogEntry.payloadSize] at hbytes
    exact Or.inl (List.length_eq_zero_iff.mp (by omega))

/-- If the counter has been right throughout, no entry had a payload. -/
theorem bringsNothing_of_throughout : ∀ {as : List BufferAction} {s s' : LogEntryBuffer},
    Throughout (Correct files lsn) s as → s.run as = .ok s' → ∀ a ∈ as, BringsNothing a
  | [], _, _, _, _ => fun _ ha => absurd ha List.not_mem_nil
  | a :: as, s, s', ⟨hs, hnext⟩, hrun => by
    obtain ⟨s₁, h₁, hrun⟩ := ok_of_bind hrun
    obtain ⟨-, hrest⟩ := hnext s₁ h₁
    intro a' ha'
    rcases List.mem_cons.mp ha' with rfl | ha'
    · cases a' with
      | thread breaksOff => exact trivial
      | append module data =>
        obtain rfl := Except.ok.inj h₁
        have hafter : Correct files lsn (s.append module data) := by
          cases as with
          | nil => exact hrest
          | cons _ _ => exact hrest.1
        exact bringsNothing_of_correct hs hafter
    · exact bringsNothing_of_throughout hrest hrun a' ha'

/-- **The log buffer.**  In every run the entries are written once each, in the order of their LSNs, and
    the flushed LSN follows them.  The count of the bytes is right throughout the run exactly if no entry
    with a payload is appended in it. -/
theorem log_buffer {files : List LogFile} {lsn : Int} {as : List BufferAction} {s : LogEntryBuffer}
    (h : (init files lsn).run as = .ok s) :
    Throughout (InOrder files lsn) (init files lsn) as ∧
      (Throughout (Correct files lsn) (init files lsn) as ↔ ∀ a ∈ as, BringsNothing a) :=
  ⟨inOrder_throughout files lsn as, fun ht => bringsNothing_of_throughout ht h,
    Throughout.of_invariant (fun _ => Bare.correct) (fun _ _ _ => Bare.step) as (bare_init files lsn)⟩

/-- The thread opens a file, the write of an entry breaks off behind three bytes, and the next one succeeds. -/
theorem log_buffer_written_again :
    let as : List BufferAction := [.append .transaction [7], .thread none, .thread none, .thread (some 3),
      .thread none, .thread none, .thread none]
    Throughout (InOrder [] 0) (init [] 0) as ∧ ¬ Throughout (Correct [] 0) (init [] 0) as := by
  intro as
  have hrun : ∃ s, (init [] 0).run as = .ok s := ⟨_, rfl⟩
  obtain ⟨s, hrun⟩ := hrun
  obtain ⟨horder, hcorrect⟩ := log_buffer hrun
  refine ⟨horder, fun h => ?_⟩
  rcases hcorrect.mp h _ List.mem_cons_self with hnil | hlarge
  · cases hnil
  · exact absurd hlarge (by decide)

/-- One entry with one byte is appended, and sixteen bytes are counted for it. -/
theorem payload_not_counted :
    ¬ Throughout (Correct [] 0) (init [] 0) [.append .transaction [7]] := by
  intro h
  have hbytes := (h.2 _ rfl).2.bytes
  revert hbytes
  decide

end LogEntryBuffer

end Miniob.Clog
