/-
  Transactions over the tables of a database (`MvccTrx` and `MvccTrxKit` in
  src/observer/storage/trx/mvcc_trx.cpp), as a machine whose steps are the calls of many sessions.

  * A transaction is known by its identifier.  `operations` is what `operations_` holds; it is kept
    after the end of the transaction, as its history.  `pending` are the operations that `commit` or
    `rollback` has not worked off yet.
  * `commit` and `rollback` are loops over the operations, and other sessions run in between: the
    first step takes the commit identifier, and each operation is a step of its own.
  * INSERT and DELETE statements call `insertRecord` and `deleteRecord` row by row.  The other
    statements that change a table (UPDATE, LOAD DATA, CREATE TABLE .. AS SELECT, CREATE INDEX) do
    so behind the back of the transaction.

  Left out: the log (see the recovery modules) and DROP TABLE.
-/
import Miniob.Trx.Update

namespace Miniob.Trx

open Miniob.Common Miniob.Db Miniob.Storage

variable {D U : Type}

/-! ## State -/

/-- `Table::table_id`. -/
abbrev TableId := Int

/-- Where a row is stored. -/
abbrev Loc := TableId × RecordId

/-- `Operation::Type`. -/
inductive OperationType where
  | insert
  | delete
  deriving DecidableEq, Repr

/-- `class Operation`. -/
structure Operation where
  type : OperationType
  loc : Loc
  deriving DecidableEq

/-- The hidden field that the operation marks: begin for an INSERT, end for a DELETE. -/
def Operation.xid (op : Operation) (r : Row D) : Int :=
  match op.type with
  | .insert => r.beginXid
  | .delete => r.endXid

def Operation.setXid (op : Operation) (xid : Int) (r : Row D) : Row D :=
  match op.type with
  | .insert => { r with beginXid := xid }
  | .delete => { r with endXid := xid }

/-- What a transaction is doing. -/
inductive Phase where
  | active
  | committing (commitXid : Int)
  | rollingBack
  deriving DecidableEq, Repr

/-- `class MvccTrx`. -/
structure MvccTrx where
  operations : List Operation
  pending : List Operation
  phase : Phase
  deriving DecidableEq

/-- `operations_.push_back`. -/
def MvccTrx.push (x : MvccTrx) (op : Operation) : MvccTrx :=
  { x with operations := x.operations ++ [op], pending := x.pending ++ [op] }

/-- The database: `MvccTrxKit` and the opened tables. -/
structure Database (D U : Type) where
  currentTrxId : Int
  trx : Int → Option MvccTrx
  tables : TableId → Option (Table D U)

/-- `MvccTrxKit::next_trx_id`: `++current_trx_id_` on an `int32_t`. -/
def nextTrxId (currentTrxId : Int) : Int := int32 (currentTrxId + 1)

namespace Database

/-- A database without tables in which no transaction has run. -/
def empty : Database D U where
  currentTrxId := 0
  trx _ := none
  tables _ := none

def setTrx (db : Database D U) (trxId : Int) (x : MvccTrx) : Database D U :=
  { db with trx := fun id => if id = trxId then some x else db.trx id }

def setTable (db : Database D U) (tid : TableId) (t : Table D U) : Database D U :=
  { db with tables := fun tid' => if tid' = tid then some t else db.tables tid' }

/-- The row stored at a place. -/
def row (db : Database D U) (l : Loc) : Option (Row D) :=
  (db.tables l.1).bind fun t => t.file.row l.2

/-- `Db::find_table`. -/
def findTable (db : Database D U) (tid : TableId) : Except Fault (Table D U) :=
  match db.tables tid with
  | some t => .ok t
  | none => .error .disabled

/-- The transaction, if it has been started and has not been asked to end. -/
def activeTrx (db : Database D U) (trxId : Int) : Except Fault MvccTrx :=
  match db.trx trxId with
  | some x => if x.phase = .active then .ok x else .error .disabled
  | none => .error .disabled

/-! ## Steps -/

/-- `MvccTrx::start_if_need` of a session whose transaction is not running. -/
def start (db : Database D U) : Database D U :=
  let trxId := nextTrxId db.currentTrxId
  { db with currentTrxId := trxId }.setTrx trxId { operations := [], pending := [], phase := .active }

/-- `MvccTrx::insert_record`. -/
def insertRecord (db : Database D U) (trxId : Int) (tid : TableId) (data : D) (p : Placement D) :
    Except Fault (RC × Database D U) := do
  let x ← db.activeTrx trxId
  let t ← db.findTable tid
  let (rc, rid, t) ← t.insertRecord (p.place 0)
    { beginXid := -trxId, endXid := maxTrxId, data }
  let db := db.setTable tid t
  match rc, rid with
  | .success, some rid => return (.success, db.setTrx trxId (x.push ⟨.insert, tid, rid⟩))
  | rc, _ => return (rc, db)

/-- `MvccTrx::delete_record`. -/
def deleteRecord (db : Database D U) (trxId : Int) (tid : TableId) (rid : RecordId) :
    Except Fault (RC × Database D U) := do
  let x ← db.activeTrx trxId
  let t ← db.findTable tid
  match t.file.row rid with
  | none => return (.recordNotExist, db)
  | some r =>
    let rc := visitRecord trxId .readWrite r
    if rc ≠ .success then return (rc, db)
    let t := { t with file := t.file.bind rid { r with endXid := -trxId } }
    return (.success, (db.setTable tid t).setTrx trxId (x.push ⟨.delete, tid, rid⟩))

/-- `MvccTrx::commit`, up to the loop of `commit_with_trx_id`. -/
def commit (db : Database D U) (trxId : Int) : Except Fault (RC × Database D U) := do
  let x ← db.activeTrx trxId
  let commitXid := nextTrxId db.currentTrxId
  return (.success,
    { db with currentTrxId := commitXid }.setTrx trxId { x with phase := .committing commitXid })

/-- One round of the loop of `MvccTrx::commit_with_trx_id`: the mark of the operation becomes the
    commit identifier. -/
def commitOperation (db : Database D U) (trxId : Int) : Except Fault (RC × Database D U) :=
  match db.trx trxId with
  | some { operations, pending := op :: pending, phase := .committing commitXid } => do
    let t ← db.findTable op.loc.1
    match t.file.row op.loc.2 with
    | none => throw .commit
    | some r =>
      if op.xid r ≠ -trxId then throw .commit
      let t := { t with file := t.file.bind op.loc.2 (op.setXid commitXid r) }
      return (.success, (db.setTable op.loc.1 t).setTrx trxId
        { operations, pending, phase := .committing commitXid })
  | _ => .error .disabled

/-- `MvccTrx::rollback`, up to the loop, which goes over the operations from the last to the
    first. -/
def rollback (db : Database D U) (trxId : Int) : Except Fault (RC × Database D U) := do
  let x ← db.activeTrx trxId
  return (.success,
    db.setTrx trxId { x with pending := x.operations.reverse, phase := .rollingBack })

/-- One round of the loop of `MvccTrx::rollback`: an inserted row is removed, the end mark of a
    deleted one is cleared. -/
def rollbackOperation (db : Database D U) (trxId : Int) : Except Fault (RC × Database D U) :=
  match db.trx trxId with
  | some { operations, pending := op :: pending, phase := .rollingBack } => do
    let t ← db.findTable op.loc.1
    let x : MvccTrx := { operations, pending, phase := .rollingBack }
    match op.type with
    | .insert =>
      let (rc, t) ← t.deleteRecordAt op.loc.2
      if rc ≠ .success then throw .rollback
      return (.success, (db.setTable op.loc.1 t).setTrx trxId x)
    | .delete =>
      match t.file.row op.loc.2 with
      | none => throw .rollback
      | some r =>
        if r.endXid ≠ -trxId then throw .rollback
        let t := { t with file := t.file.bind op.loc.2 { r with endXid := maxTrxId } }
        return (.success, (db.setTable op.loc.1 t).setTrx trxId x)
  | _ => .error .disabled

/-- `Db::create_table`. -/
def createTable (db : Database D U) (tid : TableId) : Except Fault (RC × Database D U) :=
  match db.tables tid with
  | some _ => .error .disabled
  | none => .ok (.success, db.setTable tid { file := .empty, indexes := [] })

/-- `Table::create_index`; `trxId` is what the session's transaction has for an identifier, whether
    or not it is running. -/
def createIndex (db : Database D U) (trxId : Int) (tid : TableId) (indexMeta : IndexMeta D U) :
    Except Fault (RC × Database D U) := do
  let t ← db.findTable tid
  let (rc, t) ← t.createIndex trxId indexMeta
  return (rc, db.setTable tid t)

/-- The UPDATE operator. -/
def update (db : Database D U) (trxId : Int) (tid : TableId) (stmt : UpdateStmt D)
    (p : Placement D) : Except Fault (RC × Database D U) := do
  let _ ← db.activeTrx trxId
  let t ← db.findTable tid
  let (rc, t) ← openUpdate t trxId stmt p
  return (rc, db.setTable tid t)

/-- One row of LOAD DATA (`insert_record_from_file`) or of CREATE TABLE .. AS SELECT
    (`create_table_with_subquery`): the record as `Table::make_record` leaves it, with zeros in
    the hidden fields, goes into the table. -/
def insertMadeRecord (db : Database D U) (tid : TableId) (data : D) (p : Placement D) :
    Except Fault (RC × Database D U) := do
  let t ← db.findTable tid
  let (rc, _, t) ← t.insertRecord (p.place 0) { beginXid := 0, endXid := 0, data }
  return (rc, db.setTable tid t)

end Database

/-- One step of some session. -/
inductive Action (D U : Type) where
  | start
  | insertRecord (trxId : Int) (tid : TableId) (data : D) (p : Placement D)
  | deleteRecord (trxId : Int) (tid : TableId) (rid : RecordId)
  | commit (trxId : Int)
  | commitOperation (trxId : Int)
  | rollback (trxId : Int)
  | rollbackOperation (trxId : Int)
  | createTable (tid : TableId)
  | createIndex (trxId : Int) (tid : TableId) (indexMeta : IndexMeta D U)
  | update (trxId : Int) (tid : TableId) (stmt : UpdateStmt D) (p : Placement D)
  | insertMadeRecord (tid : TableId) (data : D) (p : Placement D)

/-- The machine. -/
def Database.step (db : Database D U) : Action D U → Except Fault (RC × Database D U)
  | .start => .ok (.success, db.start)
  | .insertRecord trxId tid data p => db.insertRecord trxId tid data p
  | .deleteRecord trxId tid rid => db.deleteRecord trxId tid rid
  | .commit trxId => db.commit trxId
  | .commitOperation trxId => db.commitOperation trxId
  | .rollback trxId => db.rollback trxId
  | .rollbackOperation trxId => db.rollbackOperation trxId
  | .createTable tid => db.createTable tid
  | .createIndex trxId tid indexMeta => db.createIndex trxId tid indexMeta
  | .update trxId tid stmt p => db.update trxId tid stmt p
  | .insertMadeRecord tid data p => db.insertMadeRecord tid data p

end Miniob.Trx
