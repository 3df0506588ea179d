/-
  A buffer pool (`DiskBufferPool` and `BPFrameManager` in
  src/observer/storage/buffer/disk_buffer_pool.cpp).

  * A page is in a frame, in the double write buffer or in the data file, and the first of these that
    has it counts.  Frames are kept in the order in which they were used; when there is no free one,
    the last frame nobody has pinned goes.
  * Frames that are given back keep their dirty flag and their page: `MemPoolSimple` does not set
    anything back.
  * The header page is in a frame that is pinned as long as the file is open.  `file_header_` points
    into it.
  * `allocate_frame` tries for ever when all frames are pinned (`noVictim`).

  Left out: failing system calls, locks, the log, and the frames of other buffer pools, but for the
  fact that other pools evict frames of this one.
-/
import Miniob.Buffer.DoubleWrite

namespace Miniob.Buffer

open Miniob.Common Miniob.Storage

variable {D : Type}

/-! ## Frames and header -/

structure BPFileHeader where
  pageCount : Nat
  allocatedPages : Int
  bitmap : Nat → Bool

/-- `BPFileHeader::MAX_PAGE_NUM`. -/
def maxPageNum : Nat := (bpPageDataSize - 4 - 4) * 8

/-- The first page that is not allocated. -/
def BPFileHeader.freePage (h : BPFileHeader) : Option Nat :=
  if h.allocatedPages < h.pageCount then (List.range h.pageCount).find? fun i => !h.bitmap i else none

/-- The header with a page more that is allocated. -/
def BPFileHeader.allocate (h : BPFileHeader) (pageNum : Nat) : BPFileHeader where
  pageCount := max h.pageCount (pageNum + 1)
  allocatedPages := h.allocatedPages + 1
  bitmap i := if i = pageNum then true else h.bitmap i

def BPFileHeader.dispose (h : BPFileHeader) (pageNum : Nat) : BPFileHeader :=
  { h with
    allocatedPages := h.allocatedPages - 1
    bitmap := fun i => if i = pageNum then false else h.bitmap i }

/-- The data of the header page, or of another one. -/
inductive PageData (D : Type) where
  | header (h : BPFileHeader)
  | data (d : D)

structure Frame (D : Type) where
  pageNum : Nat
  page : Page (PageData D)
  dirty : Bool
  pinCount : Nat

structure PoolConfig (D : Type) where
  fmt : PageFormat (PageData D)
  bufferPoolId : Int
  /-- Of the double write buffer. -/
  maxPages : Nat

/-- A buffer pool: its frames, and the double-write buffer and files below it. -/
structure DiskBufferPool (D : Type) where
  /-- `frames_`, the one used last in front. -/
  frames : List (Frame D)
  /-- `allocator_.frees`. -/
  frees : List (Frame D)
  dblwr : DiskDoubleWriteBuffer (PageData D)
  files : Files (PageData D)

inductive BufferFault where
  | noVictim
  | assertion
  deriving DecidableEq

namespace DiskBufferPool

variable (cfg : PoolConfig D)

def key (pageNum : Nat) : DoubleWritePageKey := ⟨cfg.bufferPoolId, pageNum⟩

/-- The frame of a page. -/
def frame (s : DiskBufferPool D) (pageNum : Nat) : Option (Frame D) :=
  s.frames.find? fun f => f.pageNum = pageNum

/-- Change a frame in its place. -/
def setFrame (s : DiskBufferPool D) (f : Frame D) : DiskBufferPool D :=
  { s with frames := s.frames.map fun g => if g.pageNum = f.pageNum then f else g }

/-- `BPFrameManager::get`: the frame moves to the front and is pinned. -/
def get (s : DiskBufferPool D) (f : Frame D) : Frame D × DiskBufferPool D :=
  let f := { f with pinCount := f.pinCount + 1 }
  (f, { s with frames := f :: s.frames.filter fun g => g.pageNum ≠ f.pageNum })

/-- `BPFrameManager::free_internal`. -/
def free (s : DiskBufferPool D) (f : Frame D) : DiskBufferPool D :=
  { s with
    frames := s.frames.filter fun g => g.pageNum ≠ f.pageNum
    frees := s.frees ++ [f] }

/-- `file_header_`. -/
def header (s : DiskBufferPool D) : Option BPFileHeader :=
  match s.frame 0 with
  | some ⟨_, ⟨_, _, .header h⟩, _, _⟩ => some h
  | _ => none

/-- Change the header, `mark_dirty` and `set_lsn`. -/
def setHeader (s : DiskBufferPool D) (h : BPFileHeader) (lsn : Int) : DiskBufferPool D :=
  match s.frame 0 with
  | some f => s.setFrame { f with page := { f.page with lsn, data := .header h }, dirty := true }
  | none => s

/-! ## Moving pages down and up -/

/-- A write of the double write buffer, with what it leaves. -/
def writeDown (s : DiskBufferPool D)
    (out : DiskDoubleWriteBuffer (PageData D) × List (Write (PageData D))) : DiskBufferPool D :=
  { s with dblwr := out.1, files := afterWrites (Files.write cfg.fmt) s.files out.2 }

/-- `flush_page_internal`. -/
def flushPageInternal (s : DiskBufferPool D) (f : Frame D) (t : Traversal (PageData D)) :
    Frame D × DiskBufferPool D :=
  let page := { f.page with checkSum := cfg.fmt.crc32 f.page.data }
  let f := { f with page, dirty := false }
  (f, (s.writeDown cfg (s.dblwr.addPage cfg.maxPages (key cfg f.pageNum) page t)).setFrame f)

/-- The frame that `purge_frames` finds. -/
def victim (s : DiskBufferPool D) : Option (Frame D) :=
  s.frames.reverse.find? fun f => f.pinCount = 0

/-- `purge_frames` with one frame, and the purger of `allocate_frame`. -/
def evict (s : DiskBufferPool D) (t : Traversal (PageData D)) : Option (DiskBufferPool D) :=
  match s.victim with
  | none => none
  | some f =>
    if f.dirty then
      let (f, s) := s.flushPageInternal cfg f t
      some (s.free f)
    else some (s.free f)

/-- `BPFrameManager::alloc` of a page that is in no frame. -/
def alloc (s : DiskBufferPool D) (pageNum : Nat) : Option (Frame D × DiskBufferPool D) :=
  match s.frees with
  | [] => none
  | f :: frees =>
    let f := { f with pageNum, pinCount := 1 }
    some (f, { s with frames := f :: s.frames, frees })

/-- `allocate_frame`. -/
def allocateFrame (s : DiskBufferPool D) (pageNum : Nat) (t : Traversal (PageData D)) :
    Except BufferFault (Frame D × DiskBufferPool D) :=
  match s.frame pageNum with
  | some f => .ok (s.get f)
  | none =>
    match s.alloc pageNum with
    | some out => .ok out
    | none =>
      match s.evict cfg t with
      | none => .error .noVictim
      | some s =>
        match s.alloc pageNum with
        | some out => .ok out
        | none => .error .noVictim

/-- `load_page`. -/
def loadPage (s : DiskBufferPool D) (pageNum : Nat) : Except RC (Page (PageData D)) :=
  match s.dblwr.readPage (key cfg pageNum) with
  | .ok page => .ok page
  | .error _ =>
    match s.files.data (key cfg pageNum) with
    | some page => .ok page
    | none => .error .ioerrRead

/-- `purge_frame`. -/
def purgeFrame (s : DiskBufferPool D) (f : Frame D) (t : Traversal (PageData D)) :
    RC × DiskBufferPool D :=
  if f.pinCount ≠ 1 then (.lockedUnlock, s)
  else if f.dirty then
    let (f, s) := s.flushPageInternal cfg f t
    (.success, s.free f)
  else (.success, s.free f)

/-! ## The operations -/

/-- The frame that is handed out. -/
abbrev Result (D : Type) := Except RC (Option (Nat × Page (PageData D)))

/-- `get_this_page`, with `load_page`. -/
def getThisPage (s : DiskBufferPool D) (pageNum : Nat) (t : Traversal (PageData D)) :
    Except BufferFault (Result D × DiskBufferPool D) :=
  match s.frame pageNum with
  | some f => .ok (.ok (some (pageNum, f.page)), (s.get f).2)
  | none => do
    let (f, s) ← s.allocateFrame cfg pageNum t
    match s.loadPage cfg pageNum with
    | .ok page => return (.ok (some (pageNum, page)), s.setFrame { f with page })
    | .error rc => return (.error rc, (s.purgeFrame cfg f t).2)

/-- `allocate_page`, in its two ways. -/
def allocatePage (s : DiskBufferPool D) (lsn : Int) (t : Traversal (PageData D)) :
    Except BufferFault (Result D × DiskBufferPool D) :=
  match s.header with
  | none => .error .assertion
  | some h =>
    match h.freePage with
    | some pageNum => (s.setHeader (h.allocate pageNum) lsn).getThisPage cfg pageNum t
    | none =>
      if h.pageCount ≥ maxPageNum then .ok (.error .bufferpoolNobuf, s)
      else do
        let pageNum := h.pageCount
        let (f, s) ← s.allocateFrame cfg pageNum t
        let s := s.setHeader (h.allocate pageNum) lsn
        let f := { f with page := cfg.fmt.zeroPage }
        let (f, s) := (s.setFrame f).flushPageInternal cfg f t
        return (.ok (some (pageNum, f.page)), s)

/-- `dispose_page`. -/
def disposePage (s : DiskBufferPool D) (pageNum : Nat) (lsn : Int) :
    Except BufferFault (Result D × DiskBufferPool D) :=
  if pageNum = 0 then .ok (.error .internal, s)
  else
    let dropped : Except BufferFault (DiskBufferPool D) :=
      match s.frame pageNum with
      | none => .ok s
      | some f =>
        -- the `ASSERT` of `free_internal`: nobody else has pinned the frame
        if f.pinCount ≠ 0 then .error .assertion
        else .ok (s.free { f with pinCount := 0 })
    do
      let s ← dropped
      match s.header with
      | none => .error .assertion
      | some h => .ok (.ok none, s.setHeader (h.dispose pageNum) lsn)

/-- Write into a frame that is pinned, and `mark_dirty`.  The header page is not for others. -/
def writeFrame (s : DiskBufferPool D) (pageNum : Nat) (lsn : Int) (d : D) :
    Except BufferFault (Result D × DiskBufferPool D) :=
  match s.frame pageNum with
  | none => .error .assertion
  | some f =>
    if f.pinCount = 0 ∨ pageNum = 0 then .error .assertion
    else .ok (.ok none,
      s.setFrame { f with page := { f.page with lsn, data := .data d }, dirty := true })

/-- `unpin_page`. -/
def unpinPage (s : DiskBufferPool D) (pageNum : Nat) :
    Except BufferFault (Result D × DiskBufferPool D) :=
  match s.frame pageNum with
  | none => .error .assertion
  | some f =>
    -- the pin of the header frame belongs to the pool
    if f.pinCount = 0 ∨ (pageNum = 0 ∧ f.pinCount = 1) then .error .assertion
    else .ok (.ok none, s.setFrame { f with pinCount := f.pinCount - 1 })

def flushPage (s : DiskBufferPool D) (pageNum : Nat) (t : Traversal (PageData D)) :
    DiskBufferPool D :=
  match s.frame pageNum with
  | none => s
  | some f => (s.flushPageInternal cfg f t).2

/-- The loop of `flush_all_pages`; the frames are unpinned again. -/
def flushFrames (t : Traversal (PageData D)) : List Nat → DiskBufferPool D → DiskBufferPool D
  | [], s => s
  | pageNum :: pageNums, s => flushFrames t pageNums (s.flushPage cfg pageNum t)

def flushAllPages (s : DiskBufferPool D) (t : Traversal (PageData D)) : DiskBufferPool D :=
  flushFrames cfg t (s.frames.map Frame.pageNum) s

/-- `purge_page`.  A frame that is not purged stays pinned. -/
def purgePage (s : DiskBufferPool D) (pageNum : Nat) (t : Traversal (PageData D)) :
    RC × DiskBufferPool D :=
  match s.frame pageNum with
  | none => (.success, s)
  | some f =>
    let (f, s) := s.get f
    s.purgeFrame cfg f t

/-- The loop of `purge_all_pages` over frames that have been pinned. -/
def purgeFrames (t : Traversal (PageData D)) : List Nat → DiskBufferPool D → DiskBufferPool D
  | [], s => s
  | pageNum :: pageNums, s =>
    match s.frame pageNum with
    | none => purgeFrames t pageNums s
    | some f => purgeFrames t pageNums (s.purgeFrame cfg f t).2

def purgeAllPages (s : DiskBufferPool D) (t : Traversal (PageData D)) : DiskBufferPool D :=
  purgeFrames cfg t (s.frames.map Frame.pageNum)
    { s with frames := s.frames.map fun f => { f with pinCount := f.pinCount + 1 } }

end DiskBufferPool

/-! ## The machine -/

/-- The calls from above. -/
inductive PoolAction (D : Type) where
  | allocatePage (lsn : Int) (t : Traversal (PageData D))
  | disposePage (pageNum : Nat) (lsn : Int)
  | getThisPage (pageNum : Nat) (t : Traversal (PageData D))
  | writeFrame (pageNum : Nat) (lsn : Int) (d : D)
  | unpinPage (pageNum : Nat)
  | flushPage (pageNum : Nat) (t : Traversal (PageData D))
  | flushAllPages (t : Traversal (PageData D))
  | purgePage (pageNum : Nat) (t : Traversal (PageData D))
  | purgeAllPages (t : Traversal (PageData D))
  /-- Another pool takes a frame. -/
  | evict (t : Traversal (PageData D))
  /-- `DiskDoubleWriteBuffer::flush_page`. -/
  | flushDoubleWrite (t : Traversal (PageData D))
  /-- `DiskDoubleWriteBuffer::clear_pages`. -/
  | clearPages (t : Traversal (PageData D))

namespace DiskBufferPool

variable (cfg : PoolConfig D)

/-- One call. -/
def step (s : DiskBufferPool D) :
    PoolAction D → Except BufferFault (Result D × DiskBufferPool D)
  | .allocatePage lsn t => s.allocatePage cfg lsn t
  | .disposePage pageNum lsn => s.disposePage pageNum lsn
  | .getThisPage pageNum t => s.getThisPage cfg pageNum t
  | .writeFrame pageNum lsn d => s.writeFrame pageNum lsn d
  | .unpinPage pageNum => s.unpinPage pageNum
  | .flushPage pageNum t => .ok (.ok none, s.flushPage cfg pageNum t)
  | .flushAllPages t => .ok (.ok none, s.flushAllPages cfg t)
  | .purgePage pageNum t =>
    .ok (if (s.purgePage cfg pageNum t).1 = .success then .ok none else .error .lockedUnlock,
      (s.purgePage cfg pageNum t).2)
  | .purgeAllPages t => .ok (.ok none, s.purgeAllPages cfg t)
  | .evict t =>
    match s.evict cfg t with
    | none => .error .noVictim
    | some s => .ok (.ok none, s)
  | .flushDoubleWrite t => .ok (.ok none, s.writeDown cfg (s.dblwr.flushPage t))
  | .clearPages t => .ok (.ok none, s.writeDown cfg (s.dblwr.clearPages cfg.bufferPoolId t))

end DiskBufferPool

end Miniob.Buffer
