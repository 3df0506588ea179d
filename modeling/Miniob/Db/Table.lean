/-
  A table: the record file and the indexes over it (src/observer/storage/table/table.cpp and
  storage/index/bplus_tree_index.cpp).

  An index entry is the pair of the row's key fields and its record identifier.  The loops over
  `indexes_` run in the order of the list; the loop that takes entries back runs from the index
  before the failing one down to the first, so it walks over a reversed list.

  Left out: the names and the meta data file of the table, `LOG_*`, and failures of the record
  manager other than a full file and an unknown record identifier.
-/
import Miniob.Index.UniqueIndex
import Miniob.Trx.VisitRecord

namespace Miniob.Db

open Miniob.Index Miniob.Storage Miniob.Trx

variable {D U : Type}

/-- What a run can do that its assertions exclude, or that no caller does. -/
inductive Fault where
  /-- A fault of the tree code. -/
  | index (fault : Index.Fault)
  /-- The `ASSERT` after `delete_entry` in `Table::delete_record`. -/
  | deleteRecord
  /-- An `ASSERT` in `MvccTrx::commit_with_trx_id`. -/
  | commit
  /-- An `ASSERT` in `MvccTrx::rollback`. -/
  | rollback
  /-- The action is not one the state allows: no such table, or the transaction is not running. -/
  | disabled
  deriving DecidableEq, Repr

/-! ## An index of a table -/

/-- `BplusTreeIndex`: how to read the key fields of a record, and the tree. -/
structure TableIndex (D U : Type) where
  unique : Bool
  /-- `get_key_index_from_tuple`. -/
  keyOf : D → U
  /-- The sign of the loop over `attrs_comparator_`.  On columns without NULL it is a total order of the key
      values, but NULL is not equal to itself (Index.AttrComparator). -/
  attrCmp : U → U → Ordering
  zeroKey : IndexKey U
  tree : BplusTree (IndexKey U) RecordId

namespace TableIndex

/-- The comparator of the tree. -/
abbrev cmp (i : TableIndex D U) : IndexKey U → IndexKey U → Ordering := keyCmp i.unique i.attrCmp

/-- The entry of a record. -/
def entry (i : TableIndex D U) (record : D) (rid : RecordId) : IndexKey U × RecordId :=
  (⟨i.keyOf record, rid⟩, rid)

/-- `BplusTreeIndex::insert_entry`. -/
def insertEntry (i : TableIndex D U) (record : D) (rid : RecordId) :
    Except Fault (RC × TableIndex D U) :=
  match i.tree.insertEntry i.cmp i.zeroKey ⟨i.keyOf record, rid⟩ rid with
  | .ok (rc, tree) => .ok (rc, { i with tree })
  | .error fault => .error (.index fault)

/-- `BplusTreeIndex::delete_entry`. -/
def deleteEntry (i : TableIndex D U) (record : D) (rid : RecordId) :
    Except Fault (RC × TableIndex D U) :=
  match i.tree.deleteEntry i.cmp ⟨i.keyOf record, rid⟩ with
  | .ok (rc, tree) => .ok (rc, { i with tree })
  | .error fault => .error (.index fault)

end TableIndex

/-- What `CREATE INDEX` fixes: the fields, the uniqueness and the node sizes. -/
structure IndexMeta (D U : Type) where
  unique : Bool
  keyOf : D → U
  attrCmp : U → U → Ordering
  zeroKey : IndexKey U
  attrLength : Nat
  internalMaxSize : Int
  leafMaxSize : Int
  leaf : 4 ≤ (BplusTree.create attrLength internalMaxSize leafMaxSize :
    BplusTree (IndexKey U) RecordId).fileHeader.leafMaxSize
  internal : 6 ≤ (BplusTree.create attrLength internalMaxSize leafMaxSize :
    BplusTree (IndexKey U) RecordId).fileHeader.internalMaxSize

/-- `BplusTreeIndex::create`: the index with no entries. -/
def IndexMeta.create (m : IndexMeta D U) : TableIndex D U where
  unique := m.unique
  keyOf := m.keyOf
  attrCmp := m.attrCmp
  zeroKey := m.zeroKey
  tree := .create m.attrLength m.internalMaxSize m.leafMaxSize

/-! ## The table -/

structure Table (D U : Type) where
  file : RecordFile D
  indexes : List (TableIndex D U)

/-- The loop of `insert_entry_of_indexes` that takes the entries back again; the indexes are
    listed from the last one to the first. -/
def takeBackEntries (record : D) (rid : RecordId) :
    List (TableIndex D U) → Except Fault (List (TableIndex D U))
  | [] => .ok []
  | i :: done => do
    let (rc2, i) ← i.deleteEntry record rid
    if rc2 ≠ .success then return i :: done
    let done ← takeBackEntries record rid done
    return i :: done

/-- `Table::insert_entry_of_indexes`; `done` are the indexes that have got the entry, the last one
    first. -/
def insertEntryOfIndexes (record : D) (rid : RecordId) :
    List (TableIndex D U) → List (TableIndex D U) → Except Fault (RC × List (TableIndex D U))
  | done, [] => .ok (.success, done.reverse)
  | done, i :: rest => do
    let (rc, i) ← i.insertEntry record rid
    if rc ≠ .success then
      let done ← takeBackEntries record rid done
      return (rc, done.reverse ++ i :: rest)
    insertEntryOfIndexes record rid (i :: done) rest

/-- `Table::delete_entry_of_indexes`; `rc` is the result of the index before. -/
def deleteEntryOfIndexes (record : D) (rid : RecordId) (errorOnNotExists : Bool) :
    RC → List (TableIndex D U) → Except Fault (RC × List (TableIndex D U))
  | rc, [] => .ok (rc, [])
  | _, i :: rest => do
    let (rc, i) ← i.deleteEntry record rid
    if rc ≠ .success ∧ (rc ≠ .recordInvalidKey ∨ !errorOnNotExists) then return (rc, i :: rest)
    let (rc, rest) ← deleteEntryOfIndexes record rid errorOnNotExists rc rest
    return (rc, i :: rest)

/-- The loop of `Table::delete_record`. -/
def deleteEntries (record : D) (rid : RecordId) :
    List (TableIndex D U) → Except Fault (List (TableIndex D U))
  | [] => .ok []
  | i :: rest => do
    let (rc, i) ← i.deleteEntry record rid
    if rc ≠ .success then throw .deleteRecord
    let rest ← deleteEntries record rid rest
    return i :: rest

namespace Table

/-- `Table::insert_record`; `place` answers `record_handler_->insert_record`.  The second result is
    the record identifier, if the record got one. -/
def insertRecord (t : Table D U) (place : RecordFile D → Except RC RecordId) (r : Row D) :
    Except Fault (RC × Option RecordId × Table D U) :=
  match place t.file with
  | .error rc => .ok (rc, none, t)
  | .ok rid => do
    let file := t.file.bind rid r
    let (rc, indexes) ← insertEntryOfIndexes r.data rid [] t.indexes
    if rc ≠ .success then
      let (_, indexes) ← deleteEntryOfIndexes r.data rid false .success indexes
      return (rc, some rid, { file := file.unbind rid, indexes })
    return (rc, some rid, { file, indexes })

/-- `Table::delete_record(const Record &)`. -/
def deleteRecord (t : Table D U) (record : D) (rid : RecordId) : Except Fault (RC × Table D U) := do
  let indexes ← deleteEntries record rid t.indexes
  match t.file.row rid with
  | none => return (.recordNotExist, { t with indexes })
  | some _ => return (.success, { file := t.file.unbind rid, indexes })

/-- `Table::delete_record(const RID &)`. -/
def deleteRecordAt (t : Table D U) (rid : RecordId) : Except Fault (RC × Table D U) :=
  match t.file.row rid with
  | none => .ok (.recordNotExist, t)
  | some r => t.deleteRecord r.data rid

/-- The loop of `Table::create_index` over the records that are visible to the transaction. -/
def fillIndex (trxId : Int) (file : RecordFile D) :
    TableIndex D U → List RecordId → Except Fault (RC × TableIndex D U)
  | i, [] => .ok (.success, i)
  | i, rid :: rids =>
    match file.row rid with
    | none => fillIndex trxId file i rids
    | some r =>
      match visitRecord trxId .readOnly r with
      | .recordInvisible => fillIndex trxId file i rids
      | .success => do
        let (rc, i) ← i.insertEntry r.data rid
        if rc ≠ .success then return (rc, i)
        fillIndex trxId file i rids
      | rc => .ok (rc, i)

/-- `Table::create_index`. -/
def createIndex (t : Table D U) (trxId : Int) (indexMeta : IndexMeta D U) :
    Except Fault (RC × Table D U) := do
  let (rc, i) ← fillIndex trxId t.file indexMeta.create t.file.rids
  if rc ≠ .success then return (rc, t)
  return (rc, { t with indexes := t.indexes ++ [i] })

end Table

end Miniob.Db
