/-
  Replaying a log over the buffer pools (`IntegratedLogReplayer` in
  src/observer/storage/clog/integrated_log_replayer.cpp and the replayers it calls), together with the
  evictions of frames that may come in between.

  * A page is one of a buffer pool.  The header page of a pool that is open is pinned.
  * A record of the index log has entries for several pages.  For each record a tree handler of its own is
    opened, which reads the header of the index.  The entries are redone one by one; a page whose LSN is
    not older is left alone.  The LSNs are set when all entries are done, and until then the frames stay
    pinned.  A page that cannot be fetched ends the record: the frames keep their pins and their LSNs, and
    success is returned.
  * Entries of transactions change no page while the log is replayed.

  A frame is evicted when another page needs it, so that evictions come between the entries.  Left out: a
  record of the index log that cannot be taken apart, and the storage format that is not written.
-/
import Miniob.Common.FrameTable
import Miniob.Common.Run
import Miniob.Recovery.PageData

namespace Miniob.Recovery

open Miniob.Common Miniob.Common.Memory Miniob.Storage Miniob.Index.Log

structure PageId where
  poolId : Int
  pageNum : PageNum
  deriving DecidableEq

/-- `BP_HEADER_PAGE` of a pool. -/
def headerPage (poolId : Int) : PageId := ⟨poolId, 0⟩

inductive LogRecord where
  | allocatePage (poolId : Int) (pageNum : PageNum)
  | deallocatePage (poolId : Int) (pageNum : PageNum)
  | record (page : PageId) (operation : RecordOperation)
  | bplusTree (poolId : Int) (entries : List LogEntryHandler)
  | transaction

/-- A record of the index log that is being redone. -/
structure TreeRedo where
  lsn : Int
  poolId : Int
  /-- `file_header_` of the tree handler. -/
  header : IndexFileHeader
  /-- `frames`. -/
  frames : List PageNum
  /-- What the mini transaction has pinned. -/
  memo : List PageNum
  entries : List LogEntryHandler

structure Replayer where
  table : FrameTable PageId Page
  redoing : Option TreeRedo
  /-- What is left of the log, with LSNs. -/
  log : List (Int × LogRecord)

inductive ReplayAction where
  | next
  | evict (page : PageId)

/-- `get_this_page`. -/
def getThisPage (table : FrameTable PageId Page) (page : PageId) :
    Except Fault (Page × FrameTable PageId Page) :=
  match table.get page with
  | none => .error (.rc (if page.pageNum < 0 then .ioerrSeek else .ioerrRead))
  | some out => .ok out

namespace Replayer

variable (pools : List Int) (s : Replayer)

/-- `BufferPoolLogReplayer::replay`, with the function of the pool that is called. -/
def replayHeader (poolId : Int) (redo : Page → Except Fault (Option Page)) : Except Fault Replayer :=
  if poolId ∉ pools then .error (.rc .internal)
  else
    match s.table.frames (headerPage poolId) with
    | none => .error .undefined
    | some frame => do
      match ← redo frame.page with
      | none => return s
      | some page => return { s with table := s.table.write (headerPage poolId) page true }

/-- `RecordLogReplayer::replay`. -/
def replayRecord (lsn : Int) (page : PageId) (operation : RecordOperation) : Except Fault Replayer :=
  if page.poolId ∉ pools then .error (.rc .internal)
  else do
    let (frame, table) ← getThisPage s.table page
    if frame.lsn ≥ lsn then return { s with table := table.unpin page }
    else
      let data ← operation.redo frame.data
      return { s with table := (table.write page ⟨lsn, data⟩ operation.marks).unpin page }

/-- The beginning of `BplusTreeLogger::redo`: `BplusTreeHandler::open`. -/
def openTree (lsn : Int) (poolId : Int) (entries : List LogEntryHandler) : Except Fault Replayer :=
  if poolId ∉ pools then .error (.rc .internal)
  else do
    let page := ⟨poolId, firstIndexPage⟩
    let (frame, table) ← getThisPage s.table page
    let header := indexFileHeader frame.data
    if header.keyLength ≤ 0 then .error (.rc .nomem)
    else
      return { s with
        table := table.unpin page
        redoing := some ⟨lsn, poolId, header, [], [], entries⟩ }

/-- The mini transaction ends. -/
def release (poolId : Int) : List PageNum → FrameTable PageId Page → FrameTable PageId Page
  | [], table => table
  | p :: memo, table => release poolId memo (table.unpin ⟨poolId, p⟩)

/-- The end of `__redo`. -/
def setLsns (lsn poolId : Int) : List PageNum → FrameTable PageId Page → FrameTable PageId Page
  | [], table => table
  | p :: frames, table =>
    let page := ⟨poolId, p⟩
    setLsns lsn poolId frames
      (match table.frames page with
      | none => table
      | some frame => (table.write page { frame.page with lsn } false).unpin page)

/-- `redo` of an entry; its page is in the table and pinned. -/
def redoEntry (table : FrameTable PageId Page) (redo : TreeRedo) (page : PageId) (frame : Page)
    (body : LogBody) : Except Fault (FrameTable PageId Page × TreeRedo) :=
  match body with
  | .initHeaderPage fileHeader => do
    let data ← redoNode redo.header frame.data body
    return (table.write page { frame with data } true, { redo with header := fileHeader })
  | .updateRootPage rootPageNum _ => do
    -- `update_root_page_num_locked` fetches the first page itself and does not look at the answer
    let first := ⟨redo.poolId, firstIndexPage⟩
    match table.get first with
    | none => .error .undefined
    | some (frame, table) =>
      let data ← redoNode redo.header frame.data body
      return (table.write first { frame with data } true,
        { redo with
          header := { redo.header with rootPage := rootPageNum }
          memo := firstIndexPage :: redo.memo })
  | _ => do
    let data ← redoNode redo.header frame.data body
    return (table.write page { frame with data } false, redo)

/-- A round of the loop in `__redo`. -/
def redoNext (redo : TreeRedo) : Except Fault Replayer :=
  match redo.entries with
  | [] =>
    let table := setLsns redo.lsn redo.poolId redo.frames s.table
    .ok { s with table := release redo.poolId redo.memo table, redoing := none }
  | entry :: entries =>
    let page := ⟨redo.poolId, entry.pageNum.toInt⟩
    match s.table.get page with
    | none => .ok { s with table := release redo.poolId redo.memo s.table, redoing := none }
    | some (frame, table) =>
      if frame.lsn ≥ redo.lsn then
        .ok { s with table := table.unpin page, redoing := some { redo with entries } }
      else do
        let (table, redo) ← redoEntry table { redo with frames := redo.frames ++ [entry.pageNum.toInt] }
          page frame entry.body
        return { s with table, redoing := some { redo with entries } }

/-- `IntegratedLogReplayer::replay`, or the beginning of it for a record of the index log. -/
def replay (lsn : Int) : LogRecord → Except Fault Replayer
  | .allocatePage poolId pageNum => s.replayHeader pools poolId (redoAllocatePage lsn pageNum)
  | .deallocatePage poolId pageNum => s.replayHeader pools poolId (redoDeallocatePage lsn pageNum)
  | .record page operation => s.replayRecord pools lsn page operation
  | .bplusTree poolId entries => s.openTree pools lsn poolId entries
  | .transaction => .ok s

/-- What comes next in the recovery; at its end nothing does. -/
def next : Except Fault Replayer :=
  match s.redoing, s.log with
  | some redo, _ => s.redoNext redo
  | none, [] => .ok s
  | none, (lsn, record) :: log => { s with log }.replay pools lsn record

def step : ReplayAction → Except Fault Replayer
  | .next => s.next pools
  | .evict page => .ok { s with table := s.table.evict page }

/-- The actions one after the other. -/
def run : Replayer → List ReplayAction → Except Fault Replayer
  | s, [] => .ok s
  | s, a :: as => do
    let s ← s.step pools a
    run s as

end Replayer

end Miniob.Recovery
