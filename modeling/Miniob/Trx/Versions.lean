/-
  The steps of the machine, seen from the rows.

  `Versions` forgets tables and indexes and keeps what decides visibility: the counter, the
  transactions and which row is stored where.  `RowStep` lists what a step can do to it;
  `Database.step_rowStep` says that every step of the machine is one of these, whatever the indexes
  hold.  The invariants of the transactions are proved about `RowStep` only.
-/
import Miniob.Trx.Mvcc

namespace Miniob.Trx

open Miniob.Common Miniob.Db Miniob.Storage

variable {D U : Type}

/-- What the rules of MVCC are about: the counter, the transactions and the rows. -/
structure Versions (D : Type) where
  currentTrxId : Int
  trx : Int → Option MvccTrx
  row : Loc → Option (Row D)

namespace Versions

def setTrx (v : Versions D) (trxId : Int) (x : MvccTrx) : Versions D :=
  { v with trx := fun id => if id = trxId then some x else v.trx id }

def setRow (v : Versions D) (l : Loc) (r : Option (Row D)) : Versions D :=
  { v with row := fun l' => if l' = l then r else v.row l' }

@[simp] theorem setTrx_currentTrxId (v : Versions D) (T : Int) (x : MvccTrx) :
    (v.setTrx T x).currentTrxId = v.currentTrxId := rfl

@[simp] theorem setTrx_row (v : Versions D) (T : Int) (x : MvccTrx) : (v.setTrx T x).row = v.row := rfl

@[simp] theorem setRow_currentTrxId (v : Versions D) (l : Loc) (r : Option (Row D)) :
    (v.setRow l r).currentTrxId = v.currentTrxId := rfl

@[simp] theorem setRow_trx (v : Versions D) (l : Loc) (r : Option (Row D)) :
    (v.setRow l r).trx = v.trx := rfl

theorem setTrx_trx (v : Versions D) (T S : Int) (x : MvccTrx) :
    (v.setTrx T x).trx S = if S = T then some x else v.trx S := rfl

theorem setRow_row (v : Versions D) (l l' : Loc) (r : Option (Row D)) :
    (v.setRow l r).row l' = if l' = l then r else v.row l' := rfl

/-- After a transaction has been written it is found, and so are the others. -/
theorem setTrx_some {v : Versions D} {T S : Int} {x y : MvccTrx} :
    (v.setTrx T x).trx S = some y ↔ (S = T ∧ y = x) ∨ (S ≠ T ∧ v.trx S = some y) := by
  rw [setTrx_trx]
  by_cases h : S = T <;> simp [h, eq_comm]

/-- After a place has been written its row is found, and so are the others. -/
theorem setRow_some {v : Versions D} {l l' : Loc} {r : Option (Row D)} {r' : Row D} :
    (v.setRow l r).row l' = some r' ↔ (l' = l ∧ r = some r') ∨ (l' ≠ l ∧ v.row l' = some r') := by
  rw [setRow_row]
  by_cases h : l' = l <;> simp [h]

end Versions

/-! ## The hidden field of an operation -/

/-- INSERT and DELETE mark different fields. -/
theorem Operation.xid_setXid_of_ne {op op' : Operation} (h : op'.type ≠ op.type) (xid : Int)
    (r : Row D) : op'.xid (op.setXid xid r) = op'.xid r := by
  obtain ⟨type, l⟩ := op
  obtain ⟨type', l'⟩ := op'
  cases type <;> cases type' <;> first | rfl | exact absurd rfl h

/-- An operation is its kind and its place. -/
theorem Operation.ext' {op op' : Operation} (ht : op.type = op'.type) (hl : op.loc = op'.loc) :
    op = op' := by
  obtain ⟨type, l⟩ := op
  obtain ⟨type', l'⟩ := op'
  obtain rfl : type = type' := ht
  obtain rfl : l = l' := hl
  rfl

/-- The part of the database that decides visibility. -/
def Database.versions (db : Database D U) : Versions D where
  currentTrxId := db.currentTrxId
  trx := db.trx
  row := db.row

/-- The row at `l` is one that the UPDATE statement takes up. -/
def Database.UpdateSelects (db : Database D U) (trxId : Int) (tid : TableId) (stmt : UpdateStmt D)
    (l : Loc) (r : Row D) : Prop :=
  ∃ t, db.tables tid = some t ∧ l.1 = tid ∧ (l.2, r) ∈ stmt.selected trxId t

/-- A row that an UPDATE takes up is there and can be written. -/
theorem Database.UpdateSelects.row {db : Database D U} {trxId : Int} {tid : TableId}
    {stmt : UpdateStmt D} {l : Loc} {r : Row D} (h : db.UpdateSelects trxId tid stmt l r) :
    db.row l = some r ∧ Writable trxId r := by
  obtain ⟨t, ht, rfl, hmem⟩ := h
  obtain ⟨-, hrow, hw, -⟩ := scanRecords_mem (UpdateStmt.selected_mem hmem)
  refine ⟨?_, hw⟩
  rw [Database.row, ht]
  exact hrow

/-- What the action can do to the versions of `db`. -/
inductive RowStep (db : Database D U) : Action D U → Versions D → Prop where
  | start : RowStep db .start
      ({ db.versions with currentTrxId := nextTrxId db.currentTrxId }.setTrx
        (nextTrxId db.currentTrxId) { operations := [], pending := [], phase := .active })
  | insert {T : Int} {x : MvccTrx} {tid : TableId} {rid : RecordId} {data : D} {p : Placement D} :
      db.trx T = some x → x.phase = .active → db.row (tid, rid) = none →
      RowStep db (.insertRecord T tid data p)
        ((db.versions.setRow (tid, rid) (some ⟨-T, maxTrxId, data⟩)).setTrx T
          (x.push ⟨.insert, tid, rid⟩))
  | delete {T : Int} {x : MvccTrx} {tid : TableId} {rid : RecordId} {r : Row D} :
      db.trx T = some x → x.phase = .active → db.row (tid, rid) = some r → Writable T r →
      RowStep db (.deleteRecord T tid rid)
        ((db.versions.setRow (tid, rid) (some { r with endXid := -T })).setTrx T
          (x.push ⟨.delete, tid, rid⟩))
  | commit {T : Int} {x : MvccTrx} : db.trx T = some x → x.phase = .active →
      RowStep db (.commit T) ({ db.versions with currentTrxId := nextTrxId db.currentTrxId }.setTrx
        T { x with phase := .committing (nextTrxId db.currentTrxId) })
  | commitOperation {T c : Int} {operations pending : List Operation} {op : Operation} {r : Row D} :
      db.trx T = some ⟨operations, op :: pending, .committing c⟩ → db.row op.loc = some r →
      op.xid r = -T → RowStep db (.commitOperation T)
        ((db.versions.setRow op.loc (some (op.setXid c r))).setTrx T
          ⟨operations, pending, .committing c⟩)
  | rollback {T : Int} {x : MvccTrx} : db.trx T = some x → x.phase = .active →
      RowStep db (.rollback T)
        (db.versions.setTrx T { x with pending := x.operations.reverse, phase := .rollingBack })
  | undoInsert {T : Int} {operations pending : List Operation} {op : Operation} {r : Row D} :
      db.trx T = some ⟨operations, op :: pending, .rollingBack⟩ → op.type = .insert →
      db.row op.loc = some r → RowStep db (.rollbackOperation T)
        ((db.versions.setRow op.loc none).setTrx T ⟨operations, pending, .rollingBack⟩)
  | undoDelete {T : Int} {operations pending : List Operation} {op : Operation} {r : Row D} :
      db.trx T = some ⟨operations, op :: pending, .rollingBack⟩ → op.type = .delete →
      db.row op.loc = some r → r.endXid = -T → RowStep db (.rollbackOperation T)
        ((db.versions.setRow op.loc (some { r with endXid := maxTrxId })).setTrx T
          ⟨operations, pending, .rollingBack⟩)
  | update {T : Int} {tid : TableId} {stmt : UpdateStmt D} {p : Placement D}
      {f : Loc → Option (Row D)} :
      (∃ x, db.trx T = some x ∧ x.phase = .active) →
      (∀ l, f l = db.row l ∨
        ((db.row l = none ∨ ∃ r, db.UpdateSelects T tid stmt l r) ∧
          (f l = none ∨ ∃ r, f l = some r ∧ ∃ l₀ r₀, db.UpdateSelects T tid stmt l₀ r₀ ∧
            r.beginXid = r₀.beginXid ∧ r.endXid = r₀.endXid))) →
      RowStep db (.update T tid stmt p) { db.versions with row := f }
  | made {tid : TableId} {rid : RecordId} {data : D} {p : Placement D} :
      db.row (tid, rid) = none → RowStep db (.insertMadeRecord tid data p)
        (db.versions.setRow (tid, rid) (some ⟨0, 0, data⟩))
  /-- The step fails or does nothing to the rows. -/
  | idle {a : Action D U} : RowStep db a db.versions

/-! ## Every step is one of these -/

namespace Database

variable {db db' : Database D U} {rc : RC}

theorem findTable_ok {tid : TableId} {t : Table D U} (h : db.findTable tid = .ok t) :
    db.tables tid = some t := by
  unfold findTable at h
  split at h
  · rename_i t' ht
    rw [ht, Except.ok.inj h]
  · cases h

theorem findTable_eq {tid : TableId} {t : Table D U} (h : db.tables tid = some t) : db.findTable tid = .ok t := by
  unfold findTable
  rw [h]

/-- A transaction that may go on is there and has not begun to commit or roll back. -/
theorem activeTrx_ok {T : Int} {x : MvccTrx} (h : db.activeTrx T = .ok x) :
    db.trx T = some x ∧ x.phase = .active := by
  unfold activeTrx at h
  split at h
  · rename_i x' hx
    split at h
    · rename_i hphase
      obtain rfl := Except.ok.inj h
      exact ⟨hx, hphase⟩
    · cases h
  · cases h

/-- A row of the database is one of its table's file. -/
theorem row_of_table {tid : TableId} {t : Table D U} (h : db.tables tid = some t) (rid : RecordId) :
    db.row (tid, rid) = t.file.row rid := by
  rw [row, h]
  rfl

/-- If one place of the file changes, so does that place of the database. -/
theorem versions_setTable {tid : TableId} {t t' : Table D U} {rid : RecordId} {r : Option (Row D)}
    (h : db.tables tid = some t)
    (ht' : ∀ rid', t'.file.row rid' = if rid' = rid then r else t.file.row rid') :
    (db.setTable tid t').versions = db.versions.setRow (tid, rid) r := by
  have hrow : ∀ l, (db.setTable tid t').row l = (db.versions.setRow (tid, rid) r).row l := by
    rintro ⟨tid', rid'⟩
    show (if tid' = tid then some t' else db.tables tid').bind (fun t => t.file.row rid')
      = if (tid', rid') = (tid, rid) then r else db.row (tid', rid')
    by_cases htid : tid' = tid
    · subst htid
      rw [if_pos rfl, row_of_table h]
      show t'.file.row rid' = _
      rw [ht']
      simp
    · rw [if_neg htid, if_neg (fun heq => htid (Prod.mk.inj heq).1)]
      rfl
  show Versions.mk db.currentTrxId db.trx (db.setTable tid t').row = _
  rw [funext hrow]
  rfl

/-- Indexes are no part of the versions. -/
theorem versions_setTable_same {tid : TableId} {t t' : Table D U} (h : db.tables tid = some t)
    (ht' : t'.file = t.file) : (db.setTable tid t').versions = db.versions := by
  have hrow : ∀ l, (db.setTable tid t').row l = db.row l := by
    rintro ⟨tid', rid'⟩
    show (if tid' = tid then some t' else db.tables tid').bind (fun t => t.file.row rid') = _
    by_cases htid : tid' = tid
    · subst htid
      rw [if_pos rfl, row_of_table h, ← ht']
      rfl
    · rw [if_neg htid]
      rfl
  show Versions.mk db.currentTrxId db.trx (db.setTable tid t').row = _
  rw [funext hrow]
  rfl

theorem setTrx_versions (db : Database D U) (T : Int) (x : MvccTrx) :
    (db.setTrx T x).versions = db.versions.setTrx T x := rfl

/-- An INSERT puts in one row that is marked as its own, or nothing. -/
theorem step_insertRecord {T : Int} {tid : TableId} {data : D} {p : Placement D}
    (h : db.insertRecord T tid data p = .ok (rc, db')) :
    RowStep db (.insertRecord T tid data p) db'.versions := by
  unfold insertRecord at h
  obtain ⟨x, hx, h⟩ := ok_of_bind h
  obtain ⟨t, ht, h⟩ := ok_of_bind h
  obtain ⟨⟨rc', rid, t'⟩, hins, h⟩ := ok_of_bind h
  obtain ⟨hx, hphase⟩ := activeTrx_ok hx
  replace ht := findTable_ok ht
  have hfile := Table.insertRecord_file hins
  dsimp only at h
  split at h
  · obtain ⟨rfl, rfl⟩ := Prod.mk.inj (Except.ok.inj h)
    cases hfile with
    | stored hfree hf =>
      rw [setTrx_versions, versions_setTable ht fun rid' => by rw [hf, RecordFile.bind_row]]
      exact .insert hx hphase (by rw [row_of_table ht, hfree])
    | rejected hrc _ => exact absurd rfl hrc
  · rename_i hne
    obtain ⟨rfl, rfl⟩ := Prod.mk.inj (Except.ok.inj h)
    cases hfile with
    | stored _ _ => exact absurd rfl (hne _ rfl)
    | rejected _ hf =>
      rw [versions_setTable_same ht hf]
      exact .idle

/-- A DELETE marks one row, or nothing. -/
theorem step_deleteRecord {T : Int} {tid : TableId} {rid : RecordId}
    (h : db.deleteRecord T tid rid = .ok (rc, db')) :
    RowStep db (.deleteRecord T tid rid) db'.versions := by
  unfold deleteRecord at h
  obtain ⟨x, hx, h⟩ := ok_of_bind h
  obtain ⟨t, ht, h⟩ := ok_of_bind h
  obtain ⟨hx, hphase⟩ := activeTrx_ok hx
  replace ht := findTable_ok ht
  dsimp only at h
  split at h
  · obtain ⟨-, rfl⟩ := Prod.mk.inj (Except.ok.inj h)
    exact .idle
  · rename_i r hr
    split at h
    · obtain ⟨-, rfl⟩ := Prod.mk.inj (Except.ok.inj h)
      exact .idle
    · rename_i hw
      obtain ⟨-, rfl⟩ := Prod.mk.inj (Except.ok.inj h)
      rw [setTrx_versions, versions_setTable ht fun rid' => RecordFile.bind_row ..]
      exact .delete hx hphase (by rw [row_of_table ht, hr]) (not_not.mp hw)

/-- A commit draws an identifier and starts to go through the operations. -/
theorem step_commit {T : Int} (h : db.commit T = .ok (rc, db')) :
    RowStep db (.commit T) db'.versions := by
  unfold commit at h
  obtain ⟨x, hx, h⟩ := ok_of_bind h
  obtain ⟨hx, hphase⟩ := activeTrx_ok hx
  obtain ⟨-, rfl⟩ := Prod.mk.inj (Except.ok.inj h)
  exact .commit hx hphase

/-- One operation of a commit writes the identifier into one row. -/
theorem step_commitOperation {T : Int} (h : db.commitOperation T = .ok (rc, db')) :
    RowStep db (.commitOperation T) db'.versions := by
  unfold commitOperation at h
  split at h
  · rename_i operations op pending c hx
    obtain ⟨t, ht, h⟩ := ok_of_bind h
    replace ht := findTable_ok ht
    split at h
    · cases h
    · rename_i r hr
      split at h
      · cases h
      · rename_i hxid
        obtain ⟨-, rfl⟩ := Prod.mk.inj (Except.ok.inj h)
        rw [setTrx_versions, versions_setTable ht fun rid' => RecordFile.bind_row ..]
        exact .commitOperation hx (by rw [row_of_table ht, hr]) (not_not.mp hxid)
  · cases h

/-- A rollback starts to go back through the operations. -/
theorem step_rollback {T : Int} (h : db.rollback T = .ok (rc, db')) :
    RowStep db (.rollback T) db'.versions := by
  unfold rollback at h
  obtain ⟨x, hx, h⟩ := ok_of_bind h
  obtain ⟨hx, hphase⟩ := activeTrx_ok hx
  obtain ⟨-, rfl⟩ := Prod.mk.inj (Except.ok.inj h)
  exact .rollback hx hphase

/-- One operation of a rollback takes the row out, or its mark off. -/
theorem step_rollbackOperation {T : Int} (h : db.rollbackOperation T = .ok (rc, db')) :
    RowStep db (.rollbackOperation T) db'.versions := by
  unfold rollbackOperation at h
  split at h
  · rename_i operations op pending hx
    obtain ⟨t, ht, h⟩ := ok_of_bind h
    replace ht := findTable_ok ht
    dsimp only at h
    split at h
    · rename_i htype
      obtain ⟨⟨rc', t'⟩, hdel, h⟩ := ok_of_bind h
      dsimp only at h
      split at h
      · cases h
      · rename_i hrc
        obtain ⟨-, rfl⟩ := Prod.mk.inj (Except.ok.inj h)
        rcases Table.deleteRecordAt_file hdel with ⟨rfl, -⟩ | ⟨-, ⟨r, hr⟩, hf⟩
        · exact absurd nofun hrc
        · rw [setTrx_versions, versions_setTable ht fun rid' => by rw [hf, RecordFile.unbind_row]]
          exact .undoInsert hx htype (by rw [row_of_table ht, hr])
    · rename_i htype
      split at h
      · cases h
      · rename_i r hr
        split at h
        · cases h
        · rename_i hend
          obtain ⟨-, rfl⟩ := Prod.mk.inj (Except.ok.inj h)
          rw [setTrx_versions, versions_setTable ht fun rid' => RecordFile.bind_row ..]
          exact .undoDelete hx htype (by rw [row_of_table ht, hr]) (not_not.mp hend)
  · cases h

/-- A new table has no rows. -/
theorem step_createTable {tid : TableId} (h : db.createTable tid = .ok (rc, db')) :
    RowStep db (.createTable tid) db'.versions := by
  unfold createTable at h
  split at h
  · cases h
  · rename_i hnone
    obtain ⟨-, rfl⟩ := Prod.mk.inj (Except.ok.inj h)
    have hrow : (db.setTable tid ⟨.empty, []⟩).row = db.row := by
      funext l
      show (if l.1 = tid then some _ else db.tables l.1).bind _ = (db.tables l.1).bind _
      by_cases htid : l.1 = tid
      · rw [if_pos htid, htid, hnone]
        rfl
      · rw [if_neg htid]
    show RowStep db _ ⟨db.currentTrxId, db.trx, (db.setTable tid ⟨.empty, []⟩).row⟩
    rw [hrow]
    exact .idle

/-- CREATE INDEX leaves the record file. -/
theorem createIndex_file {t t' : Table D U} {T : Int} {indexMeta : IndexMeta D U}
    (h : t.createIndex T indexMeta = .ok (rc, t')) : t'.file = t.file := by
  unfold Table.createIndex at h
  obtain ⟨⟨rc', i⟩, -, h⟩ := ok_of_bind h
  dsimp only at h
  split at h
  · obtain ⟨-, rfl⟩ := Prod.mk.inj (Except.ok.inj h)
    rfl
  · obtain ⟨-, rfl⟩ := Prod.mk.inj (Except.ok.inj h)
    rfl

/-- CREATE INDEX changes no row. -/
theorem step_createIndex {T : Int} {tid : TableId} {indexMeta : IndexMeta D U}
    (h : db.createIndex T tid indexMeta = .ok (rc, db')) :
    RowStep db (.createIndex T tid indexMeta) db'.versions := by
  unfold createIndex at h
  obtain ⟨t, ht, h⟩ := ok_of_bind h
  obtain ⟨⟨rc', t'⟩, hcreate, h⟩ := ok_of_bind h
  obtain ⟨-, rfl⟩ := Prod.mk.inj (Except.ok.inj h)
  rw [versions_setTable_same (findTable_ok ht) (createIndex_file hcreate)]
  exact .idle

/-- An UPDATE writes only rows that it takes up, or places that were free. -/
theorem step_update {T : Int} {tid : TableId} {stmt : UpdateStmt D} {p : Placement D}
    (h : db.update T tid stmt p = .ok (rc, db')) :
    RowStep db (.update T tid stmt p) db'.versions := by
  unfold update at h
  obtain ⟨x, hx, h⟩ := ok_of_bind h
  obtain ⟨t, ht, h⟩ := ok_of_bind h
  obtain ⟨⟨rc', t'⟩, hrun, h⟩ := ok_of_bind h
  obtain ⟨-, rfl⟩ := Prod.mk.inj (Except.ok.inj h)
  replace ht := findTable_ok ht
  refine .update (f := (db.setTable tid t').row) ⟨x, activeTrx_ok hx⟩ ?_
  rintro ⟨tid', rid⟩
  by_cases htid : tid' = tid
  · subst htid
    have hrow : (db.setTable tid' t').row (tid', rid) = t'.file.row rid := by
      show (if tid' = tid' then some t' else _).bind _ = _
      rw [if_pos rfl]
      rfl
    rw [hrow, row_of_table ht]
    rcases openUpdate_rewritten hrun rid with heq | ⟨hold, hnew⟩
    · exact Or.inl heq
    · refine Or.inr ⟨hold.imp_right fun ⟨r, hr⟩ => ⟨r, t, ht, rfl, hr⟩, hnew.imp_right ?_⟩
      rintro ⟨r, hr, o, ho, heq⟩
      exact ⟨r, hr, (tid', o.1), o.2, ⟨t, ht, rfl, ho⟩, heq⟩
  · left
    show (if tid' = tid then some t' else db.tables tid').bind _ = _
    rw [if_neg htid]
    rfl

/-- LOAD DATA puts in one row with the fields 0, or nothing. -/
theorem step_insertMadeRecord {tid : TableId} {data : D} {p : Placement D}
    (h : db.insertMadeRecord tid data p = .ok (rc, db')) :
    RowStep db (.insertMadeRecord tid data p) db'.versions := by
  unfold insertMadeRecord at h
  obtain ⟨t, ht, h⟩ := ok_of_bind h
  obtain ⟨⟨rc', rid, t'⟩, hins, h⟩ := ok_of_bind h
  obtain ⟨-, rfl⟩ := Prod.mk.inj (Except.ok.inj h)
  replace ht := findTable_ok ht
  cases Table.insertRecord_file hins with
  | stored hfree hf =>
    rw [versions_setTable ht fun rid' => by rw [hf, RecordFile.bind_row]]
    exact .made (by rw [row_of_table ht, hfree])
  | rejected _ hf =>
    rw [versions_setTable_same ht hf]
    exact .idle

/-- **Inversion.**  A step of the machine does to the rows one of the things `RowStep` lists. -/
theorem step_rowStep {a : Action D U} (h : db.step a = .ok (rc, db')) :
    RowStep db a db'.versions := by
  cases a with
  | start =>
    obtain ⟨-, rfl⟩ := Prod.mk.inj (Except.ok.inj h)
    exact .start
  | insertRecord T tid data p => exact step_insertRecord h
  | deleteRecord T tid rid => exact step_deleteRecord h
  | commit T => exact step_commit h
  | commitOperation T => exact step_commitOperation h
  | rollback T => exact step_rollback h
  | rollbackOperation T => exact step_rollbackOperation h
  | createTable tid => exact step_createTable h
  | createIndex T tid indexMeta => exact step_createIndex h
  | update T tid stmt p => exact step_update h
  | insertMadeRecord tid data p => exact step_insertMadeRecord h

end Database

/-! ## The counter -/

/-- The counter does not reach the identifier that stands for "never". -/
def CountsUp (db : Database D U) : Action D U → Prop
  | .start => db.currentTrxId + 1 < maxTrxId
  | .commit _ => db.currentTrxId + 1 < maxTrxId
  | _ => True

/-- The counter goes up by one as long as it has not reached its end. -/
theorem nextTrxId_eq {c : Int} (h : 0 ≤ c) (hlt : c + 1 < maxTrxId) : nextTrxId c = c + 1 := by
  unfold maxTrxId at hlt
  exact int32_of_range (by omega) (by omega)

/-- The counter never goes back.  A transaction goes on, starts to roll back, or takes the new counter
    as its commit identifier, or it has just got the new counter. -/
theorem trx_step {db : Database D U} {a : Action D U} {v' : Versions D}
    (hnonneg : 0 ≤ db.currentTrxId) (hok : CountsUp db a) (hstep : RowStep db a v') :
    db.currentTrxId ≤ v'.currentTrxId ∧ ∀ T x', v'.trx T = some x' →
      (∃ x, db.trx T = some x ∧ (x'.phase = x.phase ∨ x.phase = .active ∧ (x'.phase = .rollingBack ∨
        db.currentTrxId < v'.currentTrxId ∧ x'.phase = .committing v'.currentTrxId))) ∨
      (a = .start ∧ db.currentTrxId < v'.currentTrxId ∧ T = v'.currentTrxId ∧ x'.phase = .active) := by
  cases hstep with
  | start =>
    have hnext := nextTrxId_eq hnonneg hok
    have hlt : db.currentTrxId < nextTrxId db.currentTrxId := by omega
    refine ⟨Int.le_of_lt hlt, fun S x' hx' => ?_⟩
    rcases Versions.setTrx_some.mp hx' with ⟨rfl, rfl⟩ | ⟨-, hx⟩
    · exact Or.inr ⟨rfl, hlt, rfl, rfl⟩
    · exact Or.inl ⟨x', hx, Or.inl rfl⟩
  | commit hx hphase =>
    have hnext := nextTrxId_eq hnonneg hok
    have hlt : db.currentTrxId < nextTrxId db.currentTrxId := by omega
    refine ⟨Int.le_of_lt hlt, fun S x' hx' => ?_⟩
    rcases Versions.setTrx_some.mp hx' with ⟨rfl, rfl⟩ | ⟨-, hx₁⟩
    · exact Or.inl ⟨_, hx, Or.inr ⟨hphase, Or.inr ⟨hlt, rfl⟩⟩⟩
    · exact Or.inl ⟨x', hx₁, Or.inl rfl⟩
  | rollback hx hphase =>
    refine ⟨Int.le_refl _, fun S x' hx' => ?_⟩
    rcases Versions.setTrx_some.mp hx' with ⟨rfl, rfl⟩ | ⟨-, hx₁⟩
    · exact Or.inl ⟨_, hx, Or.inr ⟨hphase, Or.inl rfl⟩⟩
    · exact Or.inl ⟨x', hx₁, Or.inl rfl⟩
  | insert hx | delete hx | commitOperation hx | undoInsert hx | undoDelete hx =>
    refine ⟨Int.le_refl _, fun S x' hx' => ?_⟩
    rcases Versions.setTrx_some.mp hx' with ⟨rfl, rfl⟩ | ⟨-, hx₁⟩
    · exact Or.inl ⟨_, hx, Or.inl rfl⟩
    · exact Or.inl ⟨x', hx₁, Or.inl rfl⟩
  | update | made | idle => exact ⟨Int.le_refl _, fun S x' hx' => Or.inl ⟨x', hx', Or.inl rfl⟩⟩

/-- A running transaction ran before or has just got the counter. -/
theorem active_step {db : Database D U} {a : Action D U} {v' : Versions D}
    (hnonneg : 0 ≤ db.currentTrxId) (hok : CountsUp db a) (hstep : RowStep db a v') {T : Int}
    {x' : MvccTrx} (hx' : v'.trx T = some x') (hactive : x'.phase = .active) :
    (∃ x, db.trx T = some x ∧ x.phase = .active) ∨ (a = .start ∧ db.currentTrxId < T) := by
  rcases (trx_step hnonneg hok hstep).2 T x' hx' with ⟨x, hx, hor⟩ | ⟨ha, hlt, rfl, -⟩
  · refine Or.inl ⟨x, hx, ?_⟩
    rcases hor with hp | ⟨hp, -⟩
    · exact hp.symm.trans hactive
    · exact hp
  · exact Or.inr ⟨ha, hlt⟩

end Miniob.Trx
