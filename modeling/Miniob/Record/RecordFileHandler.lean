/-
  A record file (`RecordFileHandler` in src/observer/storage/record/record_manager.cpp).

  * Pages are never given back, so that the pages of the file are numbered 1, 2, ... without a gap and
    `allocate_page` always puts a new one at the end.
  * `free_pages_` is an `unordered_set`: after an insertion its elements may come in any order.  Pages
    get into it by insertions, deletions, updates and the scan at the start; a page in it may be full,
    and `insert_record` throws such pages out on its way.
  * What the pool and the log answer is given from outside (`Environment`): a page may not be fetched,
    and the log may refuse a new page.
  * Page 0 is the header page of the buffer pool.  Nothing keeps a caller from using it as a page of
    records; what this does is left open (`none`).

  Left out: locks, and errors of the log that the code ignores.
-/
import Miniob.Buffer.BufferPool
import Miniob.Common.Run
import Miniob.Record.RecordPage

namespace Miniob.Record

open Miniob.Common Miniob.Storage

/-- What one operation meets outside. -/
structure Environment where
  /-- Of `get_this_page`, for pages of the file. -/
  getThisPage : PageNum → RC
  /-- Of `init_new_page` of the log. -/
  initNewPage : RC
  /-- The order of the elements of an `unordered_set` after an insertion. -/
  order : List PageNum → List PageNum
  perm : ∀ free, (order free).Perm free

/-- What a call returns: a code, the identifier of a new record, the bytes of a record. -/
structure Answer where
  rc : RC
  rid : Option RID
  record : Option (List UInt8)
  deriving DecidableEq

/-- The `updater` of `visit_record`: it works on a copy of the record. -/
structure Updater (n : Nat) where
  apply : List UInt8 → Bool × List UInt8
  keeps : ∀ record, record.length = n → (apply record).2.length = n

/-- The bytes a caller hands over: `record_size` of them. -/
abbrev Data (n : Nat) := { bytes : List UInt8 // bytes.length = n }

structure RecordFileHandler where
  /-- Page 1, page 2, and so on. -/
  pages : List RecordPage
  /-- `free_pages_`. -/
  freePages : List PageNum

namespace RecordFileHandler

/-- A file that was just created. -/
def empty : RecordFileHandler := ⟨[], []⟩

def page (s : RecordFileHandler) (pageNum : Int) : Option RecordPage :=
  if 0 < pageNum then s.pages[(pageNum - 1).toNat]? else none

def setPage (s : RecordFileHandler) (pageNum : Int) (page : RecordPage) : RecordFileHandler :=
  { s with pages := s.pages.set (pageNum - 1).toNat page }

variable (env : Environment) (s : RecordFileHandler)

/-- `RecordPageHandler::init` and `recover_init`; the page is allocated already. -/
def init (pageNum : PageNum) : Except RC RecordPage :=
  match s.page pageNum with
  | none => .error (if pageNum < 0 then .ioerrSeek else .ioerrRead)
  | some page =>
    if env.getThisPage pageNum = .success then .ok page else .error (env.getThisPage pageNum)

/-- `free_pages_.insert`. -/
def insertFreePage (pageNum : PageNum) : RecordFileHandler :=
  { s with freePages := env.order (s.freePages.insert pageNum) }

/-! ## Operations -/

/-- The loop of `insert_record`, and what is left in `free_pages_`. -/
def findFreePage : List PageNum → Except RC (Option (PageNum × RecordPage)) × List PageNum
  | [] => (.ok none, [])
  | currentPageNum :: rest =>
    match s.init env currentPageNum with
    | .error rc => (.error rc, currentPageNum :: rest)
    | .ok page =>
      if page.isFull = false then (.ok (some (currentPageNum, page)), currentPageNum :: rest)
      else findFreePage rest

/-- The end of `insert_record`: the page is found. -/
def insertInto (currentPageNum : PageNum) (page : RecordPage) (data : List UInt8) :
    Option (Answer × RecordFileHandler) :=
  match page.insertRecord data with
  | none => none
  | some (rc, slotNum, page) =>
    some (⟨rc, slotNum.map fun slotNum => ⟨currentPageNum, slotNum⟩, none⟩,
      s.setPage currentPageNum page)

/-- `insert_record`: a page with room, or a new one. -/
def insertRecord (recordSize : Nat) (data : List UInt8) : Option (Answer × RecordFileHandler) :=
  let (found, freePages) := s.findFreePage env s.freePages
  let s := { s with freePages }
  match found with
  | .error rc => some (⟨rc, none, none⟩, s)
  | .ok (some (currentPageNum, page)) => s.insertInto currentPageNum page data
  | .ok none =>
    let pageCount := s.pages.length + 1
    if pageCount ≥ Buffer.maxPageNum then some (⟨.bufferpoolNobuf, none, none⟩, s)
    else
      let page := RecordPage.initEmptyPage recordSize
      let s := { s with pages := s.pages ++ [page] }
      if env.initNewPage ≠ .success then some (⟨env.initNewPage, none, none⟩, s)
      else (s.insertFreePage env pageCount).insertInto pageCount page data

/-- `recover_insert_record`. -/
def recoverInsertRecord (data : List UInt8) (rid : RID) : Option (Answer × RecordFileHandler) :=
  match s.init env rid.pageNum with
  | .error rc => some (⟨rc, none, none⟩, s)
  | .ok page =>
    match page.recoverInsertRecord data rid.slotNum with
    | none => none
    | some (rc, page) => some (⟨rc, none, none⟩, s.setPage rid.pageNum page)

/-- `delete_record` and `update_record`: the page is changed and, after a success, a free one. -/
def changeRecord (rid : RID) (change : RecordPage → Option (RC × RecordPage)) :
    Option (Answer × RecordFileHandler) :=
  match s.init env rid.pageNum with
  | .error rc => some (⟨rc, none, none⟩, s)
  | .ok page =>
    match change page with
    | none => none
    | some (rc, page) =>
      let s := s.setPage rid.pageNum page
      some (⟨rc, none, none⟩, if rc = .success then s.insertFreePage env rid.pageNum else s)

def deleteRecord (rid : RID) : Option (Answer × RecordFileHandler) :=
  s.changeRecord env rid fun page => page.deleteRecord rid.slotNum

def updateRecord (data : List UInt8) (rid : RID) : Option (Answer × RecordFileHandler) :=
  s.changeRecord env rid fun page => page.updateRecord rid.slotNum data

/-- `get_record`. -/
def getRecord (rid : RID) : Option (Answer × RecordFileHandler) :=
  match s.init env rid.pageNum with
  | .error rc => some (⟨rc, none, none⟩, s)
  | .ok page =>
    match page.getRecord rid.slotNum with
    | none => none
    | some (rc, record) => some (⟨rc, none, if rc = .success then some record else none⟩, s)

/-- `visit_record`; the record is written if the visitor has changed it. -/
def visitRecord (rid : RID) (updater : List UInt8 → Bool × List UInt8) :
    Option (Answer × RecordFileHandler) :=
  match s.init env rid.pageNum with
  | .error rc => some (⟨rc, none, none⟩, s)
  | .ok page =>
    match page.getRecord rid.slotNum with
    | none => none
    | some (rc, record) =>
      if rc ≠ .success then some (⟨rc, none, none⟩, s)
      else
        let (updated, data) := updater record
        if updated then
          match page.updateRecord rid.slotNum data with
          | none => none
          | some (rc, page) => some (⟨rc, none, some record⟩, s.setPage rid.pageNum page)
        else some (⟨rc, none, some record⟩, s)

/-- The loop of `init_free_pages`; it ends at a page that cannot be fetched. -/
def initFreePages : List PageNum → List PageNum → List PageNum
  | [], freePages => freePages
  | currentPageNum :: rest, freePages =>
    match s.init env currentPageNum with
    | .error _ => freePages
    | .ok page =>
      initFreePages rest
        (if page.isFull = false then env.order (freePages.insert currentPageNum) else freePages)

/-- `close` and `init`. -/
def reopen : Answer × RecordFileHandler :=
  (⟨.success, none, none⟩,
    { s with freePages := s.initFreePages env ((List.range s.pages.length).map fun i => i + 1) [] })

end RecordFileHandler

/-! ## Calls -/

/-- The calls of a file with records of `n` bytes. -/
inductive Call (n : Nat) where
  | insertRecord (data : Data n)
  | recoverInsertRecord (data : Data n) (rid : RID)
  | deleteRecord (rid : RID)
  | updateRecord (data : Data n) (rid : RID)
  | getRecord (rid : RID)
  | visitRecord (rid : RID) (updater : Updater n)
  | reopen

variable {n : Nat}

/-- The record a call names. -/
def Call.rid : Call n → Option RID
  | .recoverInsertRecord _ rid | .deleteRecord rid | .updateRecord _ rid | .getRecord rid
  | .visitRecord rid _ => some rid
  | .insertRecord _ | .reopen => none

namespace RecordFileHandler

/-- One of the calls. -/
def call (s : RecordFileHandler) (env : Environment) :
    Call n → Option (Answer × RecordFileHandler)
  | .insertRecord data => s.insertRecord env n data.val
  | .recoverInsertRecord data rid => s.recoverInsertRecord env data.val rid
  | .deleteRecord rid => s.deleteRecord env rid
  | .updateRecord data rid => s.updateRecord env data.val rid
  | .getRecord rid => s.getRecord env rid
  | .visitRecord rid updater => s.visitRecord env rid updater.apply
  | .reopen => some (s.reopen env)

/-- A call, unless what it does is left open. -/
def step (s : RecordFileHandler) (o : Environment × Call n) :
    Except Unit (Answer × RecordFileHandler) :=
  if o.2.rid.any (·.pageNum = 0) then .error ()
  else
    match s.call o.1 o.2 with
    | none => .error ()
    | some out => .ok out

end RecordFileHandler

end Miniob.Record
