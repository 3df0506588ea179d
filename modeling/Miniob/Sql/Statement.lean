/-
  INSERT, DELETE and UPDATE statements outside multi-statement mode
  (src/observer/sql/executor/sql_result.cpp, net/plain_communicator.cpp and the operators in
  sql/operator).

  The operators do all their work in `open`; `next` says that there are no rows, and `close` has
  nothing to do.  `SqlResult::close` commits if the operator has been closed without an error, so it
  always commits, also after `open` has failed.  The client is told what `open` has returned or, if
  that is a success, what `close` has returned.

  Other sessions run while a statement runs: `scanned` is the database that the child operator of a
  DELETE reads, `db` the one in which the rows it has returned are marked.

  Left out: views, a connection that breaks, and the messages.
-/
import Miniob.Db.Contents
import Miniob.Trx.Marks

namespace Miniob.Sql

open Miniob.Common Miniob.Db Miniob.Storage Miniob.Trx

variable {D U : Type}

/-! ## The child operator -/

/-- The pushed-down predicates, evaluated on a record. -/
structure Predicate (D : Type) where
  eval : D → Except RC Bool
  failed : ∀ d rc, eval d = .error rc → rc ≠ .success ∧ rc ≠ .recordEof

/-- `next` of a scan in `READ_WRITE` mode until it returns something else than `SUCCESS`. -/
def scan (trxId : Int) (f : RecordFile D) (predicate : Predicate D) :
    List RecordId → RC × List RecordId
  | [] => (.recordEof, [])
  | rid :: rids =>
    match f.row rid with
    | none => scan trxId f predicate rids
    | some r =>
      match visitRecord trxId .readWrite r with
      | .recordInvisible => scan trxId f predicate rids
      | .success =>
        match predicate.eval r.data with
        | .error rc => (rc, [])
        | .ok false => scan trxId f predicate rids
        | .ok true =>
          let (rc, rest) := scan trxId f predicate rids
          (rc, rid :: rest)
      | rc => (rc, [])

/-! ## INSERT -/

/-- `InsertStmt::create` has converted the values to the types of the columns, so `make_record` fails for no
    statement it lets pass; the operator has the branch all the same. -/
structure InsertStmt (D : Type) where
  tid : TableId
  /-- What `Table::make_record` makes of each row of values. -/
  rows : List (Except RC D)
  failed : ∀ rc, .error rc ∈ rows → rc ≠ .success
  /-- Where the record file puts the rows. -/
  placement : Nat → Placement D

/-- The identifier `insert_record` has given to the last record, as it stands in `operations_`. -/
def lastRecord (db : Database D U) (trxId : Int) : List RecordId :=
  (((db.trx trxId).bind fun x => x.operations.getLast?).map fun op => op.loc.2).toList

/-- The loop of `open` that deletes the rows again, the last one first. -/
def takeBackRows (trxId : Int) (tid : TableId) :
    Database D U → List RecordId → Except Fault (Database D U)
  | db, [] => .ok db
  | db, rid :: records => do
    let (rc2, db) ← db.deleteRecord trxId tid rid
    if rc2 ≠ .success then return db
    takeBackRows trxId tid db records

/-- `InsertPhysicalOperator::open`; `records` are the rows that are in, the last one first. -/
def openInsert (trxId : Int) (stmt : InsertStmt D) :
    Nat → List RecordId → Database D U → List (Except RC D) → Except Fault (RC × Database D U)
  | _, _, db, [] => .ok (.success, db)
  -- `make_record` has failed: nothing is taken back here
  | _, _, db, .error rc :: _ => .ok (rc, db)
  | n, records, db, .ok data :: rows => do
    let (rc, db) ← db.insertRecord trxId stmt.tid data (stmt.placement n)
    if rc ≠ .success then
      let db ← takeBackRows trxId stmt.tid db records
      return (rc, db)
    openInsert trxId stmt (n + 1) (lastRecord db trxId ++ records) db rows

/-! ## DELETE -/

structure DeleteStmt (D : Type) where
  tid : TableId
  /-- What `child->open` returns. -/
  childOpen : RC
  access : Access D
  predicate : Predicate D

/-- The loop over `records_`. -/
def deleteRecords (trxId : Int) (tid : TableId) :
    Database D U → List RecordId → Except Fault (RC × Database D U)
  | db, [] => .ok (.success, db)
  | db, rid :: records => do
    let (rc, db) ← db.deleteRecord trxId tid rid
    if rc ≠ .success then return (rc, db)
    deleteRecords trxId tid db records

/-- `records_`. -/
def DeleteStmt.records (stmt : DeleteStmt D) (trxId : Int) (f : RecordFile D) : List RecordId :=
  (scan trxId f stmt.predicate (stmt.access.rids f)).2

/-- `DeletePhysicalOperator::open`: with what result the scan has ended is not looked at. -/
def openDelete (scanned db : Database D U) (trxId : Int) (stmt : DeleteStmt D) :
    Except Fault (RC × Database D U) :=
  if stmt.childOpen ≠ .success then .ok (stmt.childOpen, db)
  else do
    let t ← scanned.findTable stmt.tid
    deleteRecords trxId stmt.tid db (stmt.records trxId t.file)

/-! ## UPDATE -/

structure UpdateQuery (D : Type) where
  tid : TableId
  childOpen : RC
  access : Access D
  predicate : Predicate D
  /-- `convert_expression_to_values`: what the new values do to a record. -/
  values : Except RC (SetClause D)
  placement : Placement D

/-- `UpdatePhysicalOperator::open`. -/
def openUpdateQuery (db : Database D U) (trxId : Int) (stmt : UpdateQuery D) :
    Except Fault (RC × Database D U) :=
  if stmt.childOpen ≠ .success then .ok (stmt.childOpen, db)
  else do
    let t ← db.findTable stmt.tid
    let (rc, records) := scan trxId t.file stmt.predicate (stmt.access.rids t.file)
    match stmt.values with
    | .error rc' => return (if rc = .recordEof ∧ records = [] then .success else rc', db)
    | .ok set =>
      if rc ≠ .recordEof then return (rc, db)
      let (rc, t) ← openUpdate t trxId
        { access := stmt.access, select := fun d => stmt.predicate.eval d = .ok true, set }
        stmt.placement
      return (rc, db.setTable stmt.tid t)

/-! ## The statement -/

inductive Statement (D : Type) where
  | insert (stmt : InsertStmt D)
  | delete (stmt : DeleteStmt D)
  | update (stmt : UpdateQuery D)

/-- `operator_->open(trx)`. -/
def Statement.openOperator (scanned db : Database D U) (trxId : Int) :
    Statement D → Except Fault (RC × Database D U)
  | .insert stmt => openInsert trxId stmt 0 [] db stmt.rows
  | .delete stmt => openDelete scanned db trxId stmt
  | .update stmt => openUpdateQuery db trxId stmt

/-- The loop of `commit_with_trx_id`. -/
def commitOperations (trxId : Int) :
    Database D U → List Operation → Except Fault (Database D U)
  | db, [] => .ok db
  | db, _ :: pending => do
    let (_, db) ← db.commitOperation trxId
    commitOperations trxId db pending

/-- `SqlResult::close`: the operator's `close` has returned `SUCCESS`. -/
def closeResult (db : Database D U) (trxId : Int) : Except Fault (RC × Database D U) := do
  let x ← db.activeTrx trxId
  let (rc, db) ← db.commit trxId
  let db ← commitOperations trxId db x.pending
  return (rc, db)

/-- `PlainCommunicator::write_result_internal`: what the client is told, and the database. -/
def writeResult (scanned db : Database D U) (trxId : Int) (stmt : Statement D) :
    Except Fault (RC × Database D U) := do
  let (rc, db) ← stmt.openOperator scanned db trxId
  let (rcClose, db) ← closeResult db trxId
  return (if rc ≠ .success then rc else rcClose, db)

/-! ## What the statement should do -/

/-- The records of a table, none if there is no such table. -/
def recordFile (db : Database D U) (tid : TableId) : RecordFile D :=
  ((db.tables tid).map Table.file).getD .empty

/-- What the transaction reads at a row. -/
def read (trxId : Int) (r : Row D) : Option D := if Visible trxId r then some r.data else none

/-- What the transaction reads in a table. -/
def seen (db : Database D U) (trxId : Int) (tid : TableId) : Multiset D :=
  (recordFile db tid).collect fun _ => read trxId

/-- The statement of the transaction is about this row. -/
def selects (access : Access D) (predicate : Predicate D) (trxId : Int) (f : RecordFile D)
    (rid : RecordId) : Bool :=
  decide (rid ∈ access.rids f) &&
  match f.row rid with
  | none => false
  | some r => decide (Visible trxId r) && match predicate.eval r.data with
    | .ok b => b
    | .error _ => false

/-- What `reader` should read in the table of the statement, once the statement of `trxId` has
    succeeded. -/
def Statement.outcome (scanned db : Database D U) (trxId reader : Int) : Statement D → Multiset D
  | .insert stmt => (stmt.rows.filterMap Except.toOption : List D) + seen db reader stmt.tid
  | .delete stmt => (recordFile db stmt.tid).collect fun rid r =>
      if selects stmt.access stmt.predicate trxId (recordFile scanned stmt.tid) rid then none
      else read reader r
  | .update stmt => (recordFile db stmt.tid).collect fun rid r =>
      match stmt.values with
      | .error _ => read reader r
      | .ok set =>
        if selects stmt.access stmt.predicate trxId (recordFile db stmt.tid) rid then
          (read reader r).map set.apply
        else read reader r

def Statement.tid : Statement D → TableId
  | .insert stmt => stmt.tid
  | .delete stmt => stmt.tid
  | .update stmt => stmt.tid

/-- In each index the reader finds every row that it reads in `t'`, unless the row was missing in the index of `t`
    already. -/
def StillFound (reader : Int) (t t' : Table D U) : Prop :=
  List.Forall₂ (fun i i' : TableIndex D U => ∀ rid r', t'.file.row rid = some r' → Visible reader r' →
    (∀ r, t.file.row rid = some r → i.Finds r.data rid) → i'.Finds r'.data rid)
    t.indexes t'.indexes

/-- The unique indexes refuse the same rows. -/
def RefusesAlike (t t' : Table D U) : Prop :=
  List.Forall₂ (fun i i' : TableIndex D U => i.unique = true → ∀ record rid,
    i'.Rejects record rid ↔ i.Rejects record rid) t.indexes t'.indexes

/-- The client is told `rc`, and `db'` is the database afterwards: each later transaction reads what it would have read
    without the statement, or what the statement should leave, in the tables and through their indexes.  After a
    failure it can also insert what it could have inserted. -/
structure Atomic (scanned db : Database D U) (trxId : Int) (stmt : Statement D) (rc : RC) (db' : Database D U) :
    Prop where
  seen : ∀ reader, db'.currentTrxId < reader → reader < maxTrxId → ∀ tid,
    seen db' reader tid =
      if tid = stmt.tid ∧ rc = .success then stmt.outcome scanned db trxId reader
      else Sql.seen db reader tid
  found : ∀ reader, db'.currentTrxId < reader → reader < maxTrxId → ∀ tid t, db.tables tid = some t →
    ∃ t', db'.tables tid = some t' ∧ StillFound reader t t'
  refuses : rc ≠ .success → ∀ tid t, db.tables tid = some t →
    ∃ t', db'.tables tid = some t' ∧ RefusesAlike t t'

/-- `SqlResult::open` has started the transaction, which has done nothing yet, and identifiers are
    left. -/
structure Started (db : Database D U) (trxId : Int) : Prop where
  trx : db.trx trxId = some { operations := [], pending := [], phase := .active }
  pos : 0 < trxId
  le : trxId ≤ db.currentTrxId
  /-- The identifier of the commit is below the greatest one. -/
  lt : db.currentTrxId + 2 < maxTrxId

end Miniob.Sql
