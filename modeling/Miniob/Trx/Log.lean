/-
  What the machine writes into the log (`RecordLogHandler` in
  src/observer/storage/record/record_log.cpp and `MvccTrxLogHandler` in
  src/observer/storage/trx/mvcc_trx_log.cpp).

  * Every change of a record is one entry of the record manager, which carries the record as it is
    afterwards.  An INSERT or DELETE of a transaction adds an entry of its own behind that, and so do
    the ends of `commit` and `rollback`.
  * `LogEntry.replay` is what `RecordLogReplayer` makes of an entry on the page it is about.  An
    INSERT goes to the first free slot of the page, which is where the record was put when the
    entry was written, as `FirstFit` says of a placement.

  Left out: the entries of the buffer pool and of the indexes, and INIT_PAGE, which leaves a page
  without records.
-/
import Miniob.Common.Redo
import Miniob.Trx.Versions

namespace Miniob.Trx

open Miniob.Common Miniob.Db Miniob.Storage

variable {D U : Type}

/-! ## Pages -/

/-- A page of the record file of a table. -/
abbrev PageId := TableId × PageNum

/-- The records of a page, by slot. -/
abbrev RecordPage (D : Type) := Int → Option (Row D)

def RecordPage.set (page : RecordPage D) (slotNum : Int) (r : Option (Row D)) : RecordPage D :=
  fun s => if s = slotNum then r else page s

/-- `Bitmap::next_unsetted_bit(0)` on a page with room for `capacity` records. -/
def RecordPage.firstFree (capacity : Nat) (page : RecordPage D) : Option Int :=
  ((List.range capacity).find? fun s : Nat => (page s).isNone).map Int.ofNat

/-- The page a row is stored in. -/
def pageOf (l : Loc) : PageId := (l.1, l.2.pageNum)

end Miniob.Trx

namespace Miniob.Db

open Miniob.Trx Miniob.Storage

variable {D : Type}

/-- The records of a page of the file. -/
def RecordFile.page (f : RecordFile D) (pageNum : PageNum) : RecordPage D := fun slotNum =>
  if h : (0 ≤ pageNum ∧ pageNum < 2 ^ 31) ∧ (0 ≤ slotNum ∧ slotNum < 2 ^ 31) then
    f.row ⟨⟨pageNum, slotNum⟩, h.1, h.2⟩
  else none

theorem RecordFile.page_slot (f : RecordFile D) (rid : RecordId) :
    f.page rid.pageNum rid.slotNum = f.row rid :=
  dif_pos ⟨rid.pageRange, rid.slotRange⟩

/-- A file in which one row has changed, page by page. -/
theorem RecordFile.page_set {f f' : RecordFile D} {rid : RecordId} {r : Option (Row D)}
    (h : ∀ rid', f'.row rid' = if rid' = rid then r else f.row rid') (pageNum : PageNum) :
    f'.page pageNum =
      if pageNum = rid.pageNum then (f.page rid.pageNum).set rid.slotNum r else f.page pageNum := by
  funext slotNum
  by_cases hrange : (0 ≤ pageNum ∧ pageNum < 2 ^ 31) ∧ (0 ≤ slotNum ∧ slotNum < 2 ^ 31)
  · have hsame : (⟨⟨pageNum, slotNum⟩, hrange.1, hrange.2⟩ : RecordId) = rid ↔
        pageNum = rid.pageNum ∧ slotNum = rid.slotNum := RecordId.ext_iff'
    have hpage : f'.page pageNum slotNum = f'.row ⟨⟨pageNum, slotNum⟩, hrange.1, hrange.2⟩ :=
      dif_pos hrange
    have hpage' : f.page pageNum slotNum = f.row ⟨⟨pageNum, slotNum⟩, hrange.1, hrange.2⟩ :=
      dif_pos hrange
    rw [hpage, h]
    by_cases hp : pageNum = rid.pageNum
    · rw [if_pos hp]
      unfold RecordPage.set
      by_cases hs : slotNum = rid.slotNum
      · rw [if_pos (hsame.mpr ⟨hp, hs⟩), if_pos hs]
      · rw [if_neg fun heq => hs (hsame.mp heq).2, if_neg hs, ← hpage', hp]
    · rw [if_neg hp, if_neg fun heq => hp (hsame.mp heq).1, ← hpage']
  · have hpage : f'.page pageNum slotNum = none := dif_neg hrange
    have hpage' : f.page pageNum slotNum = none := dif_neg hrange
    rw [hpage]
    split
    · rename_i hp
      subst hp
      have hs : slotNum ≠ rid.slotNum := fun heq => hrange ⟨rid.pageRange, heq ▸ rid.slotRange⟩
      exact ((if_neg hs).trans hpage').symm
    · exact hpage'.symm

/-- Where `RowRecordPageHandler::insert_record` puts records: into the first free slot of some
    page. -/
def Placement.FirstFit (capacity : Nat) (p : Placement D) : Prop :=
  ∀ n f rid, p.place n f = .ok rid → (f.page rid.pageNum).firstFree capacity = some rid.slotNum

end Miniob.Db

namespace Miniob.Trx

open Miniob.Common Miniob.Db Miniob.Storage

variable {D U : Type}

theorem RecordPage.firstFree_lt {capacity : Nat} {page : RecordPage D} {s : Int}
    (h : page.firstFree capacity = some s) : s < capacity := by
  unfold firstFree at h
  obtain ⟨n, hn, rfl⟩ := Option.map_eq_some_iff.mp h
  have := List.mem_range.mp (List.mem_of_find?_eq_some hn)
  exact Int.ofNat_lt.mpr this

/-! ## Entries -/

/-- `MvccTrxLogOperation`, with what the entry holds besides its header. -/
inductive MvccTrxLogOperation where
  | insertRecord (loc : Loc)
  | deleteRecord (loc : Loc)
  | commit (commitTrxId : Int)
  | rollback
  deriving DecidableEq

/-- The entries of the modules RECORD_MANAGER and TRANSACTION. -/
inductive LogEntry (D : Type) where
  | insert (l : Loc) (r : Row D)
  | delete (l : Loc)
  | update (l : Loc) (r : Row D)
  | trx (trxId : Int) (operation : MvccTrxLogOperation)

/-- The page in the header of a record entry. -/
def LogEntry.page : LogEntry D → Option PageId
  | .insert l _ => some (pageOf l)
  | .delete l => some (pageOf l)
  | .update l _ => some (pageOf l)
  | .trx .. => none

/-- The table that has to be open for the entry to be replayed. -/
def LogEntry.table : LogEntry D → Option TableId
  | .insert l _ => some l.1
  | .delete l => some l.1
  | .update l _ => some l.1
  | .trx _ (.insertRecord l) => some l.1
  | .trx _ (.deleteRecord l) => some l.1
  | .trx _ (.commit _) => none
  | .trx _ .rollback => none

/-- `replay_insert`, `replay_delete` and `replay_update` on the records of a page. -/
def LogEntry.replay (capacity : TableId → Nat) (e : LogEntry D) (page : RecordPage D) :
    Except RC (RecordPage D) :=
  match e with
  | .insert l r =>
    match page.firstFree (capacity l.1) with
    | none => .error .recordNomem
    | some slotNum => .ok (page.set slotNum (some r))
  | .delete l =>
    match page l.2.slotNum with
    | none => .error .recordNotExist
    | some _ => .ok (page.set l.2.slotNum none)
  | .update l r =>
    if l.2.slotNum ≥ capacity l.1 then .error .invalidArgument
    else match page l.2.slotNum with
      | none => .error .recordNotExist
      | some _ => .ok (page.set l.2.slotNum (some r))
  | .trx .. => .ok page

/-- The log of the record files. -/
def pageLog (capacity : TableId → Nat) : PageLog PageId (RecordPage D) (LogEntry D) RC where
  page := LogEntry.page
  apply := LogEntry.replay capacity

/-! ## What the operations write -/

section Writes

variable (tid : TableId)

/-- `Table::insert_record`. -/
def insertRecordLog (t : Table D U) (place : RecordFile D → Except RC RecordId) (r : Row D) :
    List (LogEntry D) :=
  match place t.file with
  | .error _ => []
  | .ok rid =>
    match insertEntryOfIndexes r.data rid [] t.indexes with
    | .ok (.success, _) => [.insert (tid, rid) r]
    | .ok _ => [.insert (tid, rid) r, .delete (tid, rid)]
    | .error _ => [.insert (tid, rid) r]

/-- `Table::delete_record`. -/
def deleteRecordLog (t : Table D U) (record : D) (rid : RecordId) : List (LogEntry D) :=
  match t.deleteRecord record rid with
  | .ok (.success, _) => [.delete (tid, rid)]
  | _ => []

def insertRowsLog (p : Placement D) : Nat → Table D U → List (Row D) → List (LogEntry D)
  | _, _, [] => []
  | n, t, r :: rows =>
    insertRecordLog tid t (p.place n) r ++
      match t.insertRecord (p.place n) r with
      | .ok (.success, _, t) => insertRowsLog p (n + 1) t rows
      | _ => []

/-- What the undo loop of UPDATE writes to the log. -/
def deleteRowsLog : Table D U → List (RecordId × Row D) → List (LogEntry D)
  | _, [] => []
  | t, (rid, r) :: rows =>
    deleteRecordLog tid t r.data rid ++
      match t.deleteRecord r.data rid with
      | .ok (.success, t) => deleteRowsLog t rows
      | _ => []

/-- What its first loop writes. -/
def deleteOldRowsLog (p : Placement D) :
    Nat → Table D U → List (Row D) → List (RecordId × Row D) → List (LogEntry D)
  | _, _, _, [] => []
  | n, t, done, (rid, r) :: rows =>
    deleteRecordLog tid t r.data rid ++
      match t.deleteRecord r.data rid with
      | .ok (.success, t) => deleteOldRowsLog p n t (r :: done) rows
      | .ok (_, t) => insertRowsLog tid p n t done
      | .error _ => []

/-- What its second loop writes, with the undo behind it. -/
def insertNewRowsLog (p : Placement D) : Nat → Table D U → List (Row D) → List (LogEntry D)
  | _, _, [] => []
  | n, t, r :: rows =>
    insertRecordLog tid t (p.place n) r ++
      match t.insertRecord (p.place n) r with
      | .ok (.success, some _, t) => insertNewRowsLog p (n + 1) t rows
      | _ => []

/-- `UpdatePhysicalOperator::open`. -/
def openUpdateLog (t : Table D U) (trxId : Int) (stmt : UpdateStmt D) (p : Placement D) :
    List (LogEntry D) :=
  let oldRecords := stmt.selected trxId t
  let newRecords := oldRecords.map fun old => { old.2 with data := stmt.set old.2.data }
  deleteOldRowsLog tid p 0 t [] oldRecords ++
    match deleteOldRows p 0 t [] oldRecords with
    | .ok (.success, n, t) =>
      insertNewRowsLog tid p n t newRecords ++
        match insertNewRows p n t [] newRecords with
        | .ok (.success, _) => []
        | .ok (_, n, done, t) =>
          deleteRowsLog tid t done ++
            match deleteRows t done with
            | .ok (.success, t) => insertRowsLog tid p n t (oldRecords.map Prod.snd)
            | _ => []
        | .error _ => []
    | _ => []

end Writes

/-- What an action writes. -/
def Database.logOf (db : Database D U) : Action D U → List (LogEntry D)
  | .insertRecord trxId tid data p =>
    match db.tables tid with
    | none => []
    | some t =>
      insertRecordLog tid t (p.place 0) ⟨-trxId, maxTrxId, data⟩ ++
        match t.insertRecord (p.place 0) ⟨-trxId, maxTrxId, data⟩ with
        | .ok (.success, some rid, _) => [.trx trxId (.insertRecord (tid, rid))]
        | _ => []
  | .deleteRecord trxId tid rid =>
    match db.row (tid, rid) with
    | none => []
    | some r =>
      if visitRecord trxId .readWrite r = .success then
        [.update (tid, rid) { r with endXid := -trxId }, .trx trxId (.deleteRecord (tid, rid))]
      else []
  | .commitOperation trxId =>
    match db.trx trxId with
    | some ⟨_, op :: _, .committing commitXid⟩ =>
      match db.row op.loc with
      | some r => [.update op.loc (op.setXid commitXid r)]
      | none => []
    | _ => []
  | .rollbackOperation trxId =>
    match db.trx trxId with
    | some ⟨_, op :: _, .rollingBack⟩ =>
      match op.type, db.row op.loc with
      | .insert, some _ => [.delete op.loc]
      | .delete, some r => [.update op.loc { r with endXid := maxTrxId }]
      | _, none => []
    | _ => []
  | .update trxId tid stmt p =>
    match db.tables tid with
    | some t => openUpdateLog tid t trxId stmt p
    | none => []
  | .insertMadeRecord tid data p =>
    match db.tables tid with
    | some t => insertRecordLog tid t (p.place 0) ⟨0, 0, data⟩
    | none => []
  | .start | .commit _ | .rollback _ | .createTable _ | .createIndex .. => []

/-! ## The machine with its log -/

structure LoggedDatabase (D U : Type) where
  db : Database D U
  log : List (LogEntry D)
  /-- The transactions whose last entry has been written. -/
  ended : Int → Bool

/-- A step of the machine, or the entry that ends `commit` or `rollback`. -/
inductive LoggedAction (D U : Type) where
  | session (a : Action D U)
  | logCommit (trxId : Int)
  | logRollback (trxId : Int)

namespace LoggedDatabase

def empty : LoggedDatabase D U where
  db := .empty
  log := []
  ended _ := false

/-- Write the last entry of a transaction. -/
def finish (s : LoggedDatabase D U) (trxId : Int) (operation : MvccTrxLogOperation) :
    Except Fault (RC × LoggedDatabase D U) :=
  if s.ended trxId then .error .disabled
  else .ok (.success, { s with
    log := s.log ++ [.trx trxId operation]
    ended := fun id => if id = trxId then true else s.ended id })

/-- An action of a session, with the entries that it writes; or the log is flushed. -/
def step (s : LoggedDatabase D U) : LoggedAction D U → Except Fault (RC × LoggedDatabase D U)
  | .session a => do
    let (rc, db) ← s.db.step a
    return (rc, { s with db, log := s.log ++ s.db.logOf a })
  | .logCommit trxId =>
    match s.db.trx trxId with
    | some ⟨_, [], .committing commitXid⟩ => s.finish trxId (.commit commitXid)
    | _ => .error .disabled
  | .logRollback trxId =>
    match s.db.trx trxId with
    | some ⟨_, [], .rollingBack⟩ => s.finish trxId .rollback
    | _ => .error .disabled

end LoggedDatabase

end Miniob.Trx
