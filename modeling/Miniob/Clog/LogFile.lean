/-
  Log entries, log files and the manager of the log files (src/observer/storage/clog/log_entry.cpp
  and log_file.cpp).

  * A file is its bytes.  A reader is what lies between its position and the end of the file: `readn`
    answers that the file has ended when fewer bytes are left than it wants, none or some of them.
  * A header takes 16 bytes, little-endian and without padding.
  * Every entry takes a header, so a reader's loops need no more rounds than there are bytes.
  * A writer appends to the last file of its manager: `last_file` opens that one and `next_file`
    adds one behind it.  `open` does not set `last_lsn_` back.
  * `last_lsn_` and `end_lsn_` are of type `int`.

  Left out: failing system calls, and names of files that are not log files.  A payload is a vector
  whose size fits in 32 bits.
-/
import Miniob.Common.Bytes
import Miniob.Common.Framed
import Miniob.Storage.Types

namespace Miniob.Clog

open Miniob.Common Miniob.Storage

/-! ## Entries -/

structure LogHeader where
  lsn : Int
  size : Int
  moduleId : Int
  deriving DecidableEq

namespace LogHeader

/-- `LogHeader::SIZE`. -/
def headerSize : Nat := 16

/-- The bytes of a header as they are in memory. -/
def toBytes (h : LogHeader) : List UInt8 :=
  bytesOfInt 8 h.lsn ++ (bytesOfInt 4 h.size ++ bytesOfInt 4 h.moduleId)

def ofBytes (bytes : List UInt8) : LogHeader where
  lsn := intOfBytes (bytes.take 8)
  size := intOfBytes ((bytes.drop 8).take 4)
  moduleId := intOfBytes (bytes.drop 12)

end LogHeader

/-- `LogModule::Id`. -/
inductive LogModule where
  | bufferPool
  | bplusTree
  | recordManager
  | transaction
  deriving DecidableEq

def LogModule.index : LogModule → Int
  | .bufferPool => 0
  | .bplusTree => 1
  | .recordManager => 2
  | .transaction => 3

structure LogEntry where
  lsn : Int
  moduleId : Int
  data : List UInt8
  deriving DecidableEq

namespace LogEntry

/-- `max_size() - LogHeader::SIZE`. -/
def maxPayloadSize : Int := 4 * 1024 * 1024 - 16

def payloadSize (e : LogEntry) : Int := e.data.length

def header (e : LogEntry) : LogHeader := ⟨e.lsn, e.payloadSize, e.moduleId⟩

/-- What `LogFileWriter::write` writes. -/
def toBytes (e : LogEntry) : List UInt8 := e.header.toBytes ++ e.data

def init (lsn : Int) (moduleId : Int) (data : List UInt8) : Except RC LogEntry :=
  if (data.length : Int) > maxPayloadSize then .error .invalidArgument
  else .ok ⟨lsn, moduleId, data⟩

end LogEntry

/-! ## Reading -/

/-- `readn`: the bytes and what is behind them, or the end of the file. -/
def readn (size : Nat) (file : List UInt8) : Option (List UInt8 × List UInt8) :=
  if size ≤ file.length then some (file.take size, file.drop size) else none

section LogFileReader

variable {S : Type} (callback : S → LogEntry → Except RC S)

/-- The loop of `iterate`. -/
def iterateLoop : Nat → List UInt8 → S → Except RC S
  | 0, _, s => .ok s
  | fuel + 1, file, s =>
    match readn LogHeader.headerSize file with
    | none => .ok s
    | some (bytes, file) =>
      let header := LogHeader.ofBytes bytes
      if header.size < 0 ∨ header.size > LogEntry.maxPayloadSize then .error .ioerrRead
      else
        match readn header.size.toNat file with
        | none => .error .ioerrRead
        | some (data, file) => do
          let s ← callback s ⟨header.lsn, header.moduleId, data⟩
          iterateLoop fuel file s

/-- The loop of `skip_to`.  Behind the end of the file nothing is left. -/
def skipTo (startLsn : Int) : Nat → List UInt8 → Except RC (List UInt8)
  | 0, file => .ok file
  | fuel + 1, file =>
    match readn LogHeader.headerSize file with
    | none => .ok []
    | some (bytes, rest) =>
      let header := LogHeader.ofBytes bytes
      if header.lsn ≥ startLsn then .ok file
      else if header.size < 0 ∨ header.size > LogEntry.maxPayloadSize then .error .ioerrRead
      else skipTo startLsn fuel (rest.drop header.size.toNat)

/-- `LogFileReader::iterate`. -/
def iterateFile (startLsn : Int) (file : List UInt8) (s : S) : Except RC S := do
  let file ← skipTo startLsn file.length file
  iterateLoop callback file.length file s

end LogFileReader

/-! ## The files -/

structure LogFile where
  /-- The LSN in its name. -/
  lsn : Int
  bytes : List UInt8

/-- The constant in `DiskLogHandler::init`. -/
def maxEntryNumberPerFile : Int := 1000

/-- `list_files`; the files are in the order of their LSNs. -/
def listFiles (files : List LogFile) (startLsn : Int) : List LogFile :=
  files.filter fun f => f.lsn + maxEntryNumberPerFile - 1 ≥ startLsn

/-! ## Writing -/

structure LogFileWriter where
  /-- The descriptor is that of the last file. -/
  valid : Bool
  lastLsn : Int
  endLsn : Int

namespace LogFileWriter

/-- A writer before its first file. -/
def closed : LogFileWriter := ⟨false, 0, 0⟩

/-- The conversion of an LSN to `int`. -/
def endLsnOf (lsn : Int) : Int := int32 (lsn + maxEntryNumberPerFile - 1)

def openFile (w : LogFileWriter) (lsn : Int) : LogFileWriter :=
  { w with valid := true, endLsn := endLsnOf lsn }

/-- `next_file`. -/
def nextFile (w : LogFileWriter) (files : List LogFile) : LogFileWriter × List LogFile :=
  let lsn := match files.getLast? with
    | none => 0
    | some f => f.lsn + maxEntryNumberPerFile
  (w.openFile lsn, files ++ [⟨lsn, []⟩])

/-- `last_file`. -/
def lastFile (w : LogFileWriter) (files : List LogFile) : LogFileWriter × List LogFile :=
  match files.getLast? with
  | none => w.nextFile files
  | some f => (w.openFile f.lsn, files)

/-- Append bytes to the last file. -/
def appendLast (files : List LogFile) (bytes : List UInt8) : List LogFile :=
  match files.getLast? with
  | none => files
  | some f => files.dropLast ++ [{ f with bytes := f.bytes ++ bytes }]

def write (w : LogFileWriter) (files : List LogFile) (e : LogEntry) :
    Except RC (LogFileWriter × List LogFile) :=
  if e.lsn > w.endLsn then .error .logFileFull
  else if !w.valid then .error .fileNotOpened
  else if e.lsn ≤ w.lastLsn then .error .invalidArgument
  else .ok ({ w with lastLsn := int32 e.lsn }, appendLast files e.toBytes)

theorem appendLast_concat (init : List LogFile) (f : LogFile) (bytes : List UInt8) :
    appendLast (init ++ [f]) bytes = init ++ [{ f with bytes := f.bytes ++ bytes }] := by
  unfold appendLast
  rw [List.getLast?_concat, List.dropLast_concat]

/-- A write that succeeds has passed the first two tests. -/
theorem write_ok {w w' : LogFileWriter} {files files' : List LogFile} {e : LogEntry}
    (h : w.write files e = .ok (w', files')) :
    e.lsn ≤ w.endLsn ∧ w.valid = true ∧ w' = { w with lastLsn := int32 e.lsn } ∧
      files' = appendLast files e.toBytes := by
  unfold write at h
  split at h
  · cases h
  rename_i hend
  split at h
  · cases h
  rename_i hvalid
  split at h
  · cases h
  obtain ⟨rfl, rfl⟩ := Prod.mk.inj (Except.ok.inj h)
  rw [Bool.not_eq_true, Bool.not_eq_false'] at hvalid
  exact ⟨Int.not_lt.mp hend, hvalid, rfl, rfl⟩

end LogFileWriter

end Miniob.Clog
