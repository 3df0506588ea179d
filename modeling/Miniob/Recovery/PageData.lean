/-
  What redo does to the bytes of a page.

  * The header page of a buffer pool (`redo_allocate_page` and `redo_deallocate_page` in
    src/observer/storage/buffer/disk_buffer_pool.cpp).
  * A page of records (`RecordLogReplayer` in src/observer/storage/record/record_log.cpp).  `replay_insert`
    calls `insert_record`, which looks for a slot itself.
  * A page of an index (`redo` of the entries in src/observer/storage/index/bplus_tree_log_entry.cpp, and
    the functions of the node handlers they call).

  The numbers in a page header are never negative.  Bytes outside the page are not touched; where the code
  would do so, or where an assertion fails, the redo is `undefined`.
-/
import Miniob.Buffer.BufferPool
import Miniob.Index.BplusTreeLogEntry
import Miniob.Record.RecordPage

namespace Miniob.Recovery

open Miniob.Common Miniob.Common.Memory Miniob.Storage Miniob.Record Miniob.Index.Log

inductive Fault where
  /-- A function returns an error, and with it the recovery. -/
  | rc (rc : RC)
  | undefined
  deriving DecidableEq

structure Page where
  lsn : Int
  data : Memory

/-! ## Numbers in memory -/

def readInt32 (mem : Memory) (offset : Nat) : Int := intOfBytes (load mem offset 4)

def writeInt32 (mem : Memory) (offset : Nat) (x : Int) : Memory := memcpy mem offset (bytesOfInt 4 x) 4

def memmove (mem : Memory) (dst src n : Nat) : Memory := memcpy mem dst (load mem src n) n

/-! ## The header page of a buffer pool -/

section BufferPool

/-- `page_count`. -/
def pageCount (mem : Memory) : Int := readInt32 mem 4

/-- `allocated_pages`. -/
def allocatedPages (mem : Memory) : Int := readInt32 mem 8

/-- The bitmap of the pages that are allocated. -/
def allocated (mem : Memory) : Bitmap := ⟨12, (pageCount mem).toNat⟩

/-- `redo_allocate_page`; `none` if it leaves the page as it is. -/
def redoAllocatePage (lsn : Int) (pageNum : PageNum) (page : Page) : Except Fault (Option Page) :=
  let mem := page.data
  if page.lsn ≥ lsn then .ok none
  else if pageNum < 0 then .error .undefined
  else if pageNum < pageCount mem then
    if (allocated mem).getBit mem pageNum.toNat then .ok none
    else
      let mem := (allocated mem).setBit mem pageNum.toNat
      .ok (some { page with data := writeInt32 mem 8 (allocatedPages mem + 1) })
  else if pageNum > pageCount mem then .error (.rc .internal)
  else if pageCount mem ≥ Buffer.maxPageNum then .error (.rc .internal)
  else
    let mem := writeInt32 mem 8 (allocatedPages mem + 1)
    let mem := writeInt32 mem 4 (pageCount mem + 1)
    .ok (some ⟨lsn, (allocated mem).setBit mem pageNum.toNat⟩)

/-- `redo_deallocate_page`. -/
def redoDeallocatePage (lsn : Int) (pageNum : PageNum) (page : Page) : Except Fault (Option Page) :=
  let mem := page.data
  if page.lsn ≥ lsn then .ok none
  else if pageNum ≥ pageCount mem then .error (.rc .internal)
  else if pageNum < 0 then .error .undefined
  else if (allocated mem).getBit mem pageNum.toNat = false then .error (.rc .internal)
  else
    let mem := (allocated mem).clearBit mem pageNum.toNat
    .ok (some ⟨lsn, writeInt32 mem 8 (allocatedPages mem - 1)⟩)

end BufferPool

/-! ## A page of records -/

section Record

/-- The page whose bytes are in memory. -/
def recordPage (mem : Memory) : RecordPage where
  header :=
    { recordNum := readInt32 mem 0
      columnNum := (readInt32 mem 4).toNat
      recordRealSize := (readInt32 mem 8).toNat
      recordSize := (readInt32 mem 12).toNat
      recordCapacity := (readInt32 mem 16).toNat
      colIdxOffset := (readInt32 mem 20).toNat
      dataOffset := (readInt32 mem 24).toNat }
  mem := mem

/-- The bytes of a page. -/
def recordBytes (page : RecordPage) : Memory :=
  let h := page.header
  let numbers : List Int :=
    [h.recordNum, h.columnNum, h.recordRealSize, h.recordSize, h.recordCapacity, h.colIdxOffset, h.dataOffset]
  memcpy page.mem 0 (numbers.flatMap (bytesOfInt 4)) pageHeaderSize

/-- `init_empty_page` of `replay_init_page`: the bytes behind the bitmap stay. -/
def initEmptyPage (recordSize columnNum : Nat) (colIdxData : List UInt8) (mem : Memory) : Memory :=
  let header := initHeader recordSize columnNum
  let mem := recordBytes { header, mem }
  memcpy (memset mem pageHeaderSize 0 (pageBitmapSize header.recordCapacity)) header.colIdxOffset colIdxData
    (columnNum * 4)

/-- `RecordOperation`, with what the log keeps for it. -/
inductive RecordOperation where
  | initPage (recordSize columnNum : Nat) (data : List UInt8)
  | insert (data : List UInt8)
  | delete (slotNum : Int)
  | update (slotNum : Int) (data : List UInt8)

/-- What a handler returns, as the replayer takes it. -/
def replayed : Option (RC × RecordPage) → Except Fault Memory
  | none => .error .undefined
  | some (rc, page) => if rc = .success then .ok (recordBytes page) else .error (.rc rc)

/-- `replay_init_page`, `replay_insert`, `replay_delete` and `replay_update`. -/
def RecordOperation.redo (mem : Memory) : RecordOperation → Except Fault Memory
  | .initPage recordSize columnNum data => .ok (initEmptyPage recordSize columnNum data mem)
  | .insert data => replayed (((recordPage mem).insertRecord data).map fun (rc, _, page) => (rc, page))
  | .delete slotNum => replayed ((recordPage mem).deleteRecord slotNum)
  | .update slotNum data => replayed ((recordPage mem).updateRecord slotNum data)

/-- The handler calls `mark_dirty`: `init_empty_page` does not. -/
def RecordOperation.marks : RecordOperation → Bool
  | .initPage .. => false
  | _ => true

end Record

/-! ## A page of an index -/

section Index

/-- `FIRST_INDEX_PAGE`. -/
def firstIndexPage : PageNum := 1

/-- The header in the first page of an index. -/
def indexFileHeader (mem : Memory) : IndexFileHeader := .ofBytes (load mem 0 IndexFileHeader.headerSize)

/-- `node_->is_leaf`. -/
def isLeaf (mem : Memory) : Bool := mem 0 != 0

/-- `node_->key_num`. -/
def keyNum (mem : Memory) : Int := readInt32 mem 4

def inPage (offset size : Int) : Bool := decide (0 ≤ offset ∧ 0 ≤ size ∧ offset + size ≤ bpPageDataSize)

/-- Where the items of a node begin and how long one is. -/
structure ItemLayout where
  array : Nat
  keySize : Int
  itemSize : Int

def leafLayout (header : IndexFileHeader) : ItemLayout := ⟨16, header.keyLength.toInt, header.keyLength.toInt + 8⟩

def internalLayout (header : IndexFileHeader) : ItemLayout :=
  ⟨12, header.keyLength.toInt, header.keyLength.toInt + 4⟩

namespace ItemLayout

variable (l : ItemLayout)

/-- `__item_at`. -/
def itemAt (index : Int) : Int := l.array + index * l.itemSize

/-- `recover_insert_items`. -/
def insertItems (index num : Int) (items : List UInt8) (mem : Memory) : Except Fault Memory :=
  let moved := (keyNum mem - index) * l.itemSize
  let size := num * l.itemSize
  if ¬ (inPage (l.itemAt index) size ∧ size ≤ items.length) then .error .undefined
  else if index < keyNum mem ∧ ¬ inPage (l.itemAt (index + num)) moved then .error .undefined
  else
    let mem' := if index < keyNum mem then
      memmove mem (l.itemAt (index + num)).toNat (l.itemAt index).toNat moved.toNat else mem
    let mem' := memcpy mem' (l.itemAt index).toNat items size.toNat
    .ok (writeInt32 mem' 4 (keyNum mem + num))

/-- `recover_remove_items`. -/
def removeItems (index num : Int) (mem : Memory) : Except Fault Memory :=
  let moved := (keyNum mem - index - num) * l.itemSize
  if index < keyNum mem - num ∧ ¬ (inPage (l.itemAt index) moved ∧ inPage (l.itemAt (index + num)) moved) then
    .error .undefined
  else
    let mem' := if index < keyNum mem - num then
      memmove mem (l.itemAt index).toNat (l.itemAt (index + num)).toNat moved.toNat else mem
    .ok (writeInt32 mem' 4 (keyNum mem - num))

/-- `create_new_root`. -/
def createNewRoot (firstPageNum pageNum : Int) (key : List UInt8) (mem : Memory) : Except Fault Memory :=
  if ¬ (l.keySize ≤ key.length ∧ inPage l.array (2 * l.itemSize)) then .error .undefined
  else
    let mem := memset mem l.array 0 l.keySize.toNat
    let mem := writeInt32 mem (l.array + l.keySize.toNat) firstPageNum
    let mem := memcpy mem (l.itemAt 1).toNat key l.keySize.toNat
    let mem := writeInt32 mem ((l.itemAt 1).toNat + l.keySize.toNat) pageNum
    .ok (writeInt32 mem 4 (keyNum mem + 2))

/-- `set_key_at`, with its assertion. -/
def setKeyAt (index : Int) (key : List UInt8) (mem : Memory) : Except Fault Memory :=
  if ¬ (0 ≤ index ∧ index < keyNum mem ∧ l.keySize ≤ key.length ∧ inPage (l.itemAt index) l.keySize) then
    .error .undefined
  else .ok (memcpy mem (l.itemAt index).toNat key l.keySize.toNat)

end ItemLayout

/-- `init_empty` of `IndexNodeHandler`. -/
def initEmpty (leaf : Bool) (mem : Memory) : Memory :=
  let mem := memcpy mem 0 [if leaf then 1 else 0] 1
  let mem := writeInt32 mem 4 0
  writeInt32 mem 8 bpInvalidPageNum

/-- The real handler of a node. -/
def nodeLayout (header : IndexFileHeader) (mem : Memory) : ItemLayout :=
  if isLeaf mem then leafLayout header else internalLayout header

/-- `redo` of an entry, on its own page; `UPDATE_ROOT_PAGE` writes to the first page of the index. -/
def redoNode (header : IndexFileHeader) (mem : Memory) : LogBody → Except Fault Memory
  | .initHeaderPage fileHeader => .ok (memcpy mem 0 fileHeader.toBytes IndexFileHeader.headerSize)
  | .updateRootPage rootPageNum _ => .ok (writeInt32 mem 0 rootPageNum.toInt)
  | .setParentPage parentPageNum _ => .ok (writeInt32 mem 8 parentPageNum.toInt)
  | .leafInitEmpty => .ok (writeInt32 (initEmpty true mem) 12 bpInvalidPageNum)
  | .leafSetNextPage newPageNum _ => .ok (writeInt32 mem 12 newPageNum.toInt)
  | .internalInitEmpty => .ok (initEmpty false mem)
  | .internalCreateNewRoot firstPageNum pageNum key =>
    (internalLayout header).createNewRoot firstPageNum.toInt pageNum.toInt key mem
  | .internalUpdateKey index key _ => (internalLayout header).setKeyAt index.toInt key mem
  | .nodeInsert index itemNum items =>
    (nodeLayout header mem).insertItems index.toInt itemNum.toInt items mem
  | .nodeRemove index itemNum _ => (nodeLayout header mem).removeItems index.toInt itemNum.toInt mem

end Index

end Miniob.Recovery
