/-
  The log on disk: appending, flushing and recovering (src/observer/storage/clog/disk_log_handler.cpp
  and log_buffer.cpp).

  * `append` puts an entry with the next LSN into the buffer.  The thread takes turns: it opens the last
    file if it has none, or the next one if the last write found the file full, and writes entries until
    the buffer is empty or a write fails.
  * A crash loses the buffer and cuts off the last file.  After it `replay` reads the files and hands the
    entries to the replayer, and the next LSN is one more than the greatest that was read.
  * `LogHistory` runs along with the handler and keeps for each file the entries that were written to it
    and not cut off.

  Left out: `append` waiting while the buffer is large, and failing system calls.
-/
import Miniob.Clog.LogFile
import Miniob.Common.Run

namespace Miniob.Clog

open Miniob.Common Miniob.Storage

inductive LogFault where
  /-- The assertion in `LogEntryBuffer::flush`. -/
  | assertion
  /-- `replay` fails. -/
  | recovery (rc : RC)
  deriving DecidableEq

structure DiskLogHandler where
  files : List LogFile
  currentLsn : Int
  flushedLsn : Int
  /-- `entries_` of the buffer. -/
  entries : List LogEntry
  /-- The writer and the last return code of `thread_func`. -/
  writer : LogFileWriter
  rc : RC

/-! ## Appending and flushing -/

/-- What `LogEntryBuffer::flush` leaves, and the entries it has written. -/
structure Flushed where
  rc : RC
  writer : LogFileWriter
  files : List LogFile
  written : List LogEntry
  entries : List LogEntry

/-- `LogEntryBuffer::flush`. -/
def flush (writer : LogFileWriter) (files : List LogFile) : List LogEntry → Except LogFault Flushed
  | [] => .ok ⟨.success, writer, files, [], []⟩
  | entry :: entries =>
    if ¬ (entry.lsn > 0 ∧ entry.payloadSize > 0) then .error .assertion
    else
      match writer.write files entry with
      | .error rc => .ok ⟨rc, writer, files, [], entry :: entries⟩
      | .ok (writer, files) => do
        let flushed ← flush writer files entries
        return { flushed with written := entry :: flushed.written }

namespace DiskLogHandler

/-- A handler whose process has just been started on these files. -/
def started (files : List LogFile) (lsn : Int) : DiskLogHandler :=
  ⟨files, lsn, lsn, [], .closed, .success⟩

/-- `_append`. -/
def append (h : DiskLogHandler) (module : LogModule) (data : List UInt8) : RC × DiskLogHandler :=
  match LogEntry.init 0 module.index data with
  | .error rc => (rc, h)
  | .ok entry =>
    let lsn := h.currentLsn + 1
    (.success, { h with currentLsn := lsn, entries := h.entries ++ [{ entry with lsn }] })

/-- The file the thread writes to in its next turn. -/
def openFile (h : DiskLogHandler) : LogFileWriter × List LogFile :=
  if h.writer.valid = false ∨ h.rc = .logFileFull then
    if h.rc = .logFileFull then h.writer.nextFile h.files else h.writer.lastFile h.files
  else (h.writer, h.files)

/-- The handler after `LogEntryBuffer::flush`. -/
def afterFlush (h : DiskLogHandler) (flushed : Flushed) : DiskLogHandler where
  files := flushed.files
  currentLsn := h.currentLsn
  flushedLsn := (flushed.written.getLast?.map LogEntry.lsn).getD h.flushedLsn
  entries := flushed.entries
  writer := flushed.writer
  rc := flushed.rc

/-- One turn of the loop in `thread_func`, with the entries it has written. -/
def turn (h : DiskLogHandler) : Except LogFault (List LogEntry × DiskLogHandler) := do
  let (writer, files) := h.openFile
  let flushed ← flush writer files h.entries
  return (flushed.written, h.afterFlush flushed)

end DiskLogHandler

/-! ## Recovering -/

section Replay

variable {S : Type} (callback : S → LogEntry → Except RC S) (startLsn : Int)

/-- The loop of `DiskLogHandler::iterate`. -/
def iterateFiles : List LogFile → S → Except RC S
  | [], s => .ok s
  | file :: files, s => do
    let s ← iterateFile callback startLsn file.bytes s
    iterateFiles files s

/-- `replay_callback`: it notes the greatest LSN and calls the replayer. -/
def replayCallback (s : Int × S) (entry : LogEntry) : Except RC (Int × S) := do
  let maxLsn := if entry.lsn > s.1 then entry.lsn else s.1
  let replayer ← callback s.2 entry
  return (maxLsn, replayer)

/-- `DiskLogHandler::replay`: the LSN for the buffer, and what the replayer has become. -/
def replay (files : List LogFile) (replayer : S) : Except RC (Int × S) :=
  iterateFiles (replayCallback callback) startLsn (listFiles files startLsn) (0, replayer)

end Replay

/-- A replayer that notes the entries it is handed. -/
def noteEntry (entries : List LogEntry) (entry : LogEntry) : Except RC (List LogEntry) :=
  .ok (entries ++ [entry])

/-- A crash cuts off the last file. -/
def cutOff (files : List LogFile) (k : Nat) : List LogFile :=
  match files.getLast? with
  | none => []
  | some f => files.dropLast ++ [{ f with bytes := f.bytes.take k }]

/-- A new process on the files: the entries its replayer is handed, and its handler. -/
def restart (files : List LogFile) (startLsn : Int) : Except RC (List LogEntry × DiskLogHandler) := do
  let (maxLsn, delivered) ← replay noteEntry startLsn files []
  return (delivered, .started files maxLsn)

/-! ## Histories -/

inductive LogAction where
  | append (module : LogModule) (data : List UInt8)
  | turn
  /-- A crash, and a recovery from an LSN on. -/
  | restart (k : Nat) (startLsn : Int)

structure LogHistory where
  handler : DiskLogHandler
  /-- For each file the entries in it. -/
  written : List (List LogEntry)

namespace LogHistory

/-- An empty directory. -/
def empty : LogHistory := ⟨.started [] 0, []⟩

/-- Entries go to the last file, which may be a new one. -/
def write (s : LogHistory) (handler : DiskLogHandler) (entries : List LogEntry) : LogHistory where
  handler := handler
  written :=
    let written := if s.written.length < handler.files.length then s.written ++ [[]] else s.written
    match written.getLast? with
    | none => []
    | some es => written.dropLast ++ [es ++ entries]

/-- The entries of each file that end before the cut. -/
def cutOff (s : LogHistory) (k : Nat) : List (List LogEntry) :=
  match s.written.getLast? with
  | none => []
  | some es => s.written.dropLast ++ [complete LogEntry.toBytes es k]

/-- An action, with the entries a recovery delivers. -/
def step (s : LogHistory) : LogAction → Except LogFault (List LogEntry × LogHistory)
  | .append module data => .ok ([], { s with handler := (s.handler.append module data).2 })
  | .turn => do
    let (entries, handler) ← s.handler.turn
    return ([], s.write handler entries)
  | .restart k startLsn =>
    match Clog.restart (Clog.cutOff s.handler.files k) startLsn with
    | .error rc => .error (.recovery rc)
    | .ok (delivered, handler) => .ok (delivered, ⟨handler, s.cutOff k⟩)

end LogHistory

end Miniob.Clog
