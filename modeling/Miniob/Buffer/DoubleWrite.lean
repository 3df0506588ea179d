/-
  The double write buffer (`DiskDoubleWriteBuffer` in
  src/observer/storage/buffer/double_write_buffer.cpp).

  * Pages that leave the frames are kept in a map and written into slots of the file dblwr.db.  When
    the map is full, or on demand, they are written into their data files, and their slots are
    marked invalid.
  * An operation is the buffer it leaves and the list of what it writes, in order; a crash cuts this
    list off.
  * A data file is what the pages of a buffer pool hold; a write behind its end leaves a hole of
    zeros.

  Left out: failing system calls, the lock, and the look-up of an open buffer pool by its identifier.
  The offset of a slot is computed with 32 bits, which is enough for the 16 slots there are.
-/
import Miniob.Common.Crash
import Miniob.Common.Run
import Miniob.Storage.Types

namespace Miniob.Buffer

open Miniob.Common Miniob.Storage

/-! ## Pages -/

structure Page (D : Type) where
  lsn : Int
  checkSum : UInt32
  data : D

/-- The check sum of a page's data, and the data of a page of zeros. -/
structure PageFormat (D : Type) where
  crc32 : D → UInt32
  zero : D

variable {D : Type}

def PageFormat.zeroPage (fmt : PageFormat D) : Page D := ⟨0, 0, fmt.zero⟩

/-- The page carries its check sum. -/
def PageFormat.Intact (fmt : PageFormat D) (page : Page D) : Prop := fmt.crc32 page.data = page.checkSum

instance (fmt : PageFormat D) (page : Page D) : Decidable (fmt.Intact page) :=
  inferInstanceAs (Decidable (_ = _))

structure DoubleWritePageKey where
  bufferPoolId : Int
  pageNum : Nat
  deriving DecidableEq

structure DoubleWritePage (D : Type) where
  key : DoubleWritePageKey
  /-- The slot in the file. -/
  pageIndex : Nat
  valid : Bool
  page : Page D

/-! ## Files -/

/-- The double write file, header and slots, and the data files. -/
structure Files (D : Type) where
  pageCnt : Nat
  slots : Nat → Option (DoubleWritePage D)
  data : DoubleWritePageKey → Option (Page D)

inductive Write (D : Type) where
  | header (pageCnt : Nat)
  /-- `write_page_internal`. -/
  | slot (p : DoubleWritePage D)
  /-- `DiskBufferPool::write_page`. -/
  | data (key : DoubleWritePageKey) (page : Page D)

/-- A page of a data file is written. -/
def writeData (fmt : PageFormat D) (data : DoubleWritePageKey → Option (Page D))
    (key : DoubleWritePageKey) (page : Page D) : DoubleWritePageKey → Option (Page D) := fun k =>
  if k = key then some page
  else if k.bufferPoolId = key.bufferPoolId ∧ k.pageNum < key.pageNum ∧ (data k).isNone then
    some fmt.zeroPage
  else data k

def Files.write (fmt : PageFormat D) (files : Files D) : Write D → Files D
  | .header pageCnt => { files with pageCnt }
  | .slot p => { files with slots := fun i => if i = p.pageIndex then some p else files.slots i }
  | .data key page => { files with data := writeData fmt files.data key page }

/-! ## The buffer -/

/-- The order in which the map is traversed. -/
structure Traversal (D : Type) where
  order : List (DoubleWritePage D) → List (DoubleWritePage D)
  perm : ∀ pages, (order pages).Perm pages

/-- In the order of insertion. -/
def Traversal.inserted : Traversal D := ⟨id, fun pages => .refl pages⟩

structure DiskDoubleWriteBuffer (D : Type) where
  /-- `dblwr_pages_`. -/
  pages : List (DoubleWritePage D)
  /-- `header_.page_cnt`. -/
  pageCnt : Nat

namespace DiskDoubleWriteBuffer

def empty : DiskDoubleWriteBuffer D := ⟨[], 0⟩

/-- The page with a key. -/
def find (b : DiskDoubleWriteBuffer D) (key : DoubleWritePageKey) : Option (DoubleWritePage D) :=
  b.pages.find? fun p => p.key = key

/-- The loop of `flush_page`. -/
def flushWrites : List (DoubleWritePage D) → List (Write D)
  | [] => []
  | p :: ps =>
    (if p.valid then [.data p.key p.page] else []) ++ .slot { p with valid := false } :: flushWrites ps

def flushPage (b : DiskDoubleWriteBuffer D) (t : Traversal D) :
    DiskDoubleWriteBuffer D × List (Write D) :=
  (empty, flushWrites (t.order b.pages))

/-- `add_page`: the page takes the place of the one with its key, or a new slot. -/
def addPage (maxPages : Nat) (b : DiskDoubleWriteBuffer D) (key : DoubleWritePageKey) (page : Page D)
    (t : Traversal D) : DiskDoubleWriteBuffer D × List (Write D) :=
  match b.find key with
  | some p =>
    ({ b with pages := b.pages.map fun q => if q.key = key then { q with page } else q },
      [.slot { p with page }])
  | none =>
    let pageCnt := b.pages.length
    let p : DoubleWritePage D := ⟨key, pageCnt, true, page⟩
    let b' : DiskDoubleWriteBuffer D := ⟨b.pages ++ [p], max (pageCnt + 1) b.pageCnt⟩
    let ws := .slot p :: if pageCnt + 1 > b.pageCnt then [.header (pageCnt + 1)] else []
    if b'.pages.length ≥ maxPages then ((b'.flushPage t).1, ws ++ (b'.flushPage t).2)
    else (b', ws)

def readPage (b : DiskDoubleWriteBuffer D) (key : DoubleWritePageKey) : Except RC (Page D) :=
  match b.find key with
  | some p => .ok p.page
  | none => .error .bufferpoolInvalidPageNum

/-- The loop of `clear_pages`. -/
def clearWrites : List (DoubleWritePage D) → List (Write D)
  | [] => []
  | p :: ps => .data p.key p.page :: .slot { p with valid := false } :: clearWrites ps

/-- The pages of a buffer pool, in the order in which `clear_pages` writes them. -/
def specPages (b : DiskDoubleWriteBuffer D) (bufferPoolId : Int) (t : Traversal D) :
    List (DoubleWritePage D) :=
  ((t.order b.pages).filter fun p => p.key.bufferPoolId = bufferPoolId).mergeSort
    fun p q => p.key.pageNum ≤ q.key.pageNum

def clearPages (b : DiskDoubleWriteBuffer D) (bufferPoolId : Int) (t : Traversal D) :
    DiskDoubleWriteBuffer D × List (Write D) :=
  ({ b with pages := b.pages.filter fun p => p.key.bufferPoolId ≠ bufferPoolId },
    clearWrites (b.specPages bufferPoolId t))

end DiskDoubleWriteBuffer

/-! ## Restart -/

/-- The loop of `load_pages` over the first slots. -/
def loadSlots (fmt : PageFormat D) (slots : Nat → Option (DoubleWritePage D)) :
    Nat → Except RC (List (DoubleWritePage D))
  | 0 => .ok []
  | n + 1 => do
    let pages ← loadSlots fmt slots n
    match slots n with
    | none => .error .ioerrRead
    | some p =>
      if fmt.Intact p.page then
        -- `insert` leaves a key alone that is there
        if pages.any fun q => q.key = p.key then return pages else return pages ++ [p]
      else return pages

/-- `load_pages`, when the file is opened. -/
def loadPages (fmt : PageFormat D) (files : Files D) : Except RC (DiskDoubleWriteBuffer D) := do
  let pages ← loadSlots fmt files.slots files.pageCnt
  return ⟨pages, files.pageCnt⟩

/-- `load_pages` and `recover`. -/
def recover (fmt : PageFormat D) (files : Files D) (t : Traversal D) :
    Except RC (DiskDoubleWriteBuffer D × List (Write D)) := do
  let b ← loadPages fmt files
  return b.flushPage t

/-! ## The machine -/

structure DoubleWrites (D : Type) where
  buffer : DiskDoubleWriteBuffer D
  files : Files D
  /-- The version of a page that `add_page` has accepted last.  The code does not have this. -/
  accepted : DoubleWritePageKey → Option (Page D)

/-- Nothing has been written but the data files. -/
def DoubleWrites.opened (data : DoubleWritePageKey → Option (Page D)) : DoubleWrites D where
  buffer := .empty
  files := ⟨0, fun _ => none, data⟩
  accepted _ := none

/-- The calls of the buffer. -/
inductive BufferAction (D : Type) where
  | addPage (key : DoubleWritePageKey) (page : Page D) (t : Traversal D)
  | readPage (key : DoubleWritePageKey)
  | flushPage (t : Traversal D)
  | clearPages (bufferPoolId : Int) (t : Traversal D)
  /-- A crash and the restart behind it. -/
  | restart (t : Traversal D)

namespace DoubleWrites

/-- What an action answers, leaves in memory and writes. -/
def run (fmt : PageFormat D) (maxPages : Nat) (s : DoubleWrites D) :
    BufferAction D → Except RC (Except RC (Option (Page D)) × DiskDoubleWriteBuffer D × List (Write D))
  | .addPage key page t => .ok (.ok none, s.buffer.addPage maxPages key page t)
  | .readPage key => .ok (some <$> s.buffer.readPage key, s.buffer, [])
  | .flushPage t => .ok (.ok none, s.buffer.flushPage t)
  | .clearPages bufferPoolId t => .ok (.ok none, s.buffer.clearPages bufferPoolId t)
  | .restart t => do
    let out ← recover fmt s.files t
    return (.ok none, out)

/-- What has been accepted after an action. -/
def accepts (accepted : DoubleWritePageKey → Option (Page D)) :
    BufferAction D → DoubleWritePageKey → Option (Page D)
  | .addPage key page _ => fun k => if k = key then some page else accepted k
  | _ => accepted

def step (fmt : PageFormat D) (maxPages : Nat) (s : DoubleWrites D) (a : BufferAction D) :
    Except RC (Except RC (Option (Page D)) × DoubleWrites D) := do
  let (result, buffer, ws) ← s.run fmt maxPages a
  return (result, ⟨buffer, afterWrites (Files.write fmt) s.files ws, accepts s.accepted a⟩)

end DoubleWrites

end Miniob.Buffer
