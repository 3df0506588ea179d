/-
  What a statement has done to its table when its operator is open, and what the commit makes of it.

  `Opened` keeps the table, and the operations of the transaction with it.  The commit puts its
  identifier in the place of the marks (`committed`), and leaves the indexes as they are.
-/
import Miniob.Sql.Statement

namespace Miniob.Sql

open Miniob.Common Miniob.Db Miniob.Storage Miniob.Trx

variable {D U : Type}

theorem recordFile_of_table {db : Database D U} {tid : TableId} {t : Table D U}
    (h : db.tables tid = some t) : recordFile db tid = t.file := by
  rw [recordFile, h]
  rfl

theorem seen_congr {db db' : Database D U} {tid : TableId} (h : recordFile db' tid = recordFile db tid)
    (reader : Int) : seen db' reader tid = seen db reader tid := by
  rw [seen, h]
  rfl

/-! ## The operator is open -/

/-- The operator of the transaction `T` has made `t` of the table `tid`, with the operations
    `ops`. -/
structure Opened (db : Database D U) (T : Int) (tid : TableId) (t : Table D U)
    (ops : List Operation) (db' : Database D U) : Prop where
  /-- No identifier has been handed out. -/
  counter : db'.currentTrxId = db.currentTrxId
  /-- All operations are still to be committed. -/
  trx : db'.trx T = some { operations := ops, pending := ops, phase := .active }
  table : db'.tables tid = some t
  other : ∀ tid' ≠ tid, db'.tables tid' = db.tables tid'
  /-- The statement has one table. -/
  tids : ∀ op ∈ ops, op.loc.1 = tid

theorem Started.opened {db : Database D U} {T : Int} (h : Started db T) {tid : TableId} {t : Table D U}
    (ht : db.tables tid = some t) : Opened db T tid t [] db where
  counter := rfl
  trx := h.trx
  table := ht
  other _ _ := rfl
  tids _ hop := nomatch hop

section Opened

variable {db db₁ db₂ : Database D U} {T : Int} {tid : TableId} {t : Table D U}
  {ops : List Operation} {rc : RC}

theorem Opened.setTable (h : Opened db T tid t ops db₁) (t' : Table D U) :
    Opened db T tid t' ops (db₁.setTable tid t') where
  counter := h.counter
  trx := h.trx
  table := if_pos rfl
  other tid' hne := (if_neg hne).trans (h.other tid' hne)
  tids := h.tids

/-- One more operation is noted. -/
theorem Opened.push (h : Opened db T tid t ops db₁) (type : OperationType) (rid : RecordId) :
    Opened db T tid t (ops ++ [⟨type, tid, rid⟩])
      (db₁.setTrx T (MvccTrx.push ⟨ops, ops, .active⟩ ⟨type, tid, rid⟩)) where
  counter := h.counter
  trx := if_pos rfl
  table := h.table
  other := h.other
  tids op hop := by
    rcases List.mem_append.mp hop with hop | hop
    · exact h.tids op hop
    · rw [List.mem_singleton.mp hop]

/-- **`insert_record`** puts the row at a free place, or leaves the rows as they are. -/
theorem Opened.insertRecord (h : Opened db T tid t ops db₁) {data : D} {p : Placement D}
    (hrun : db₁.insertRecord T tid data p = .ok (rc, db₂)) : ∃ rid t',
    t.insertRecord (p.place 0) ⟨-T, maxTrxId, data⟩ = .ok (rc, rid, t') ∧
    ((rc = .success ∧ ∃ rid', rid = some rid' ∧ t.file.row rid' = none ∧ lastRecord db₂ T = [rid'] ∧
      t'.file = t.file.bind rid' ⟨-T, maxTrxId, data⟩ ∧ Opened db T tid t' (ops ++ [⟨.insert, tid, rid'⟩]) db₂) ∨
    (rc ≠ .success ∧ t'.file = t.file ∧ Opened db T tid t' ops db₂)) := by
  unfold Database.insertRecord at hrun
  obtain ⟨x, hx, hrun⟩ := ok_of_bind hrun
  obtain rfl := Option.some.inj (h.trx.symm.trans (Database.activeTrx_ok hx).1)
  rw [bind_ok _ (Database.findTable_eq h.table)] at hrun
  obtain ⟨⟨rc', rid, t'⟩, hins, hrun⟩ := ok_of_bind hrun
  have hfile := Table.insertRecord_file hins
  have hset : Opened db T tid t' ops (db₁.setTable tid t') := h.setTable t'
  dsimp only at hrun
  split at hrun
  · rename_i rid
    obtain ⟨rfl, rfl⟩ := Prod.mk.inj (Except.ok.inj hrun)
    refine ⟨some rid, t', hins, Or.inl ⟨rfl, rid, rfl, ?_⟩⟩
    cases hfile with
    | stored hfree hf =>
      refine ⟨hfree, ?_, hf, hset.push .insert rid⟩
      have htrx := (hset.push .insert rid).trx
      rw [lastRecord, htrx]
      simp
    | rejected hrc _ => exact absurd rfl hrc
  · rename_i hne
    obtain ⟨rfl, rfl⟩ := Prod.mk.inj (Except.ok.inj hrun)
    refine ⟨rid, t', hins, Or.inr ?_⟩
    cases hfile with
    | stored _ _ => exact absurd rfl (hne _ rfl)
    | rejected hrc hf => exact ⟨hrc, hf, hset⟩

/-- The transaction can put its end mark on the row. -/
def Deletable (T : Int) (f : RecordFile D) (rid : RecordId) : Prop :=
  ∃ r, f.row rid = some r ∧ Writable T r

/-- The table with the end mark of the transaction on the row. -/
def marked (T : Int) (t : Table D U) (rid : RecordId) (r : Row D) : Table D U :=
  { t with file := t.file.bind rid { r with endXid := -T } }

/-- **`delete_record`** marks the row, or leaves it as it is. -/
theorem Opened.deleteRecord (h : Opened db T tid t ops db₁) {rid : RecordId}
    (hrun : db₁.deleteRecord T tid rid = .ok (rc, db₂)) :
    (rc = .success ∧ ∃ r, t.file.row rid = some r ∧ Writable T r ∧
      Opened db T tid (marked T t rid r) (ops ++ [⟨.delete, tid, rid⟩]) db₂) ∨
    (rc ≠ .success ∧ ¬ Deletable T t.file rid ∧ db₂ = db₁) := by
  unfold Database.deleteRecord at hrun
  obtain ⟨x, hx, hrun⟩ := ok_of_bind hrun
  obtain rfl := Option.some.inj (h.trx.symm.trans (Database.activeTrx_ok hx).1)
  rw [bind_ok _ (Database.findTable_eq h.table)] at hrun
  dsimp only at hrun
  cases hr : t.file.row rid with
  | none =>
    rw [hr] at hrun
    obtain ⟨rfl, rfl⟩ := Prod.mk.inj (Except.ok.inj hrun)
    refine Or.inr ⟨nofun, ?_, rfl⟩
    rintro ⟨r, hr', -⟩
    cases hr.symm.trans hr'
  | some r =>
    rw [hr] at hrun
    dsimp only at hrun
    split at hrun
    · rename_i hw
      obtain ⟨rfl, rfl⟩ := Prod.mk.inj (Except.ok.inj hrun)
      refine Or.inr ⟨hw, ?_, rfl⟩
      rintro ⟨r', hr', hw'⟩
      obtain rfl := Option.some.inj (hr.symm.trans hr')
      exact hw hw'
    · rename_i hw
      obtain ⟨rfl, rfl⟩ := Prod.mk.inj (Except.ok.inj hrun)
      refine Or.inl ⟨rfl, r, rfl, not_not.mp hw, ?_⟩
      exact (h.setTable (marked T t rid r)).push .delete rid

end Opened

/-! ## The commit -/

/-- The row at `l` once the operations are committed with `c`. -/
def committed (c : Int) (ops : List Operation) (l : Loc) (r : Row D) : Row D where
  beginXid := if ⟨.insert, l⟩ ∈ ops then c else r.beginXid
  endXid := if ⟨.delete, l⟩ ∈ ops then c else r.endXid
  data := r.data

theorem committed_of_not_mem {c : Int} {ops : List Operation} {l : Loc} (r : Row D)
    (h : ∀ op ∈ ops, op.loc ≠ l) : committed c ops l r = r := by
  unfold committed
  rw [if_neg (fun hmem => h _ hmem rfl), if_neg (fun hmem => h _ hmem rfl)]

/-- A commit writes its identifier operation by operation. -/
theorem committed_cons (c : Int) (op : Operation) (ops : List Operation) (l : Loc) (r : Row D) :
    committed c (op :: ops) l r =
      committed c ops l (if l = op.loc then op.setXid c r else r) := by
  obtain ⟨type, loc⟩ := op
  by_cases hl : l = loc
  · subst hl
    cases type with
    | insert =>
      by_cases hmem : ⟨.insert, l⟩ ∈ ops <;> simp [committed, Operation.setXid, hmem]
    | delete =>
      by_cases hmem : ⟨.delete, l⟩ ∈ ops <;> simp [committed, Operation.setXid, hmem]
  · simp [committed, hl]

/-- Nothing is committed where there is no operation. -/
theorem committed_nil (c : Int) (l : Loc) : committed c [] l = (id : Row D → Row D) :=
  funext fun r => committed_of_not_mem r fun _ hop => nomatch hop

/-- The loop works off the pending operations, all of them in the table `tid`. -/
theorem commitOperations_spec {c T : Int} {tid : TableId} {operations : List Operation} :
    ∀ {pending : List Operation} {t : Table D U} {db db' : Database D U}, (∀ op ∈ pending, op.loc.1 = tid) →
      db.trx T = some ⟨operations, pending, .committing c⟩ → db.tables tid = some t →
      commitOperations T db pending = .ok db' →
      db'.currentTrxId = db.currentTrxId ∧ (∀ tid' ≠ tid, db'.tables tid' = db.tables tid') ∧
      ∃ t', db'.tables tid = some t' ∧ t'.indexes = t.indexes ∧
        ∀ rid, t'.file.row rid = (t.file.row rid).map (committed c pending (tid, rid)) := by
  -- the induction is on the operations that are not committed yet, from any state of the table
  intro pending
  induction pending with
  | nil =>
    intro t db db' _ _ ht hrun
    obtain rfl := Except.ok.inj hrun
    refine ⟨rfl, fun _ _ => rfl, t, ht, rfl, fun rid => ?_⟩
    rw [committed_nil, Option.map_id]
    rfl
  | cons op pending ih =>
    intro t db db' htids hx ht hrun
    rw [commitOperations] at hrun
    obtain ⟨⟨rc, db₁⟩, hop, hrun⟩ := ok_of_bind hrun
    have htid : op.loc.1 = tid := htids op List.mem_cons_self
    unfold Database.commitOperation at hop
    rw [hx] at hop
    obtain ⟨t₁, ht₁, hop⟩ := ok_of_bind hop
    have hsame : db.tables tid = some t₁ := htid ▸ Database.findTable_ok ht₁
    obtain rfl := Option.some.inj (ht.symm.trans hsame)
    cases hr : t.file.row op.loc.2 with
    | none =>
      rw [hr] at hop
      cases hop
    -- only the row of the operation is written, and the rest starts from this file
    | some r =>
      rw [hr] at hop
      dsimp only at hop
      split at hop
      · cases hop
      obtain ⟨-, rfl⟩ := Prod.mk.inj (Except.ok.inj hop)
      rw [htid] at hrun
      obtain ⟨hcounter, hother, t', ht', hindexes, hrows⟩ :=
        @ih { t with file := t.file.bind op.loc.2 (op.setXid c r) } _ _
          (fun op' hop' => htids op' (List.mem_cons_of_mem op hop')) (if_pos rfl) (if_pos rfl) hrun
      refine ⟨hcounter, fun tid' hne => (hother tid' hne).trans (if_neg hne), t', ht', hindexes, fun rid => ?_⟩
      rw [hrows rid]
      by_cases heq : rid = op.loc.2
      · -- the row of this operation
        have hloc : (tid, rid) = op.loc := by rw [heq, ← htid]
        show ((t.file.bind op.loc.2 (op.setXid c r)).row rid).map _ = _
        rw [heq, RecordFile.bind_row_self, hr, Option.map_some, Option.map_some, committed_cons, ← heq,
          if_pos hloc]
      -- every other row is left for the operations that follow
      · have hloc : (tid, rid) ≠ op.loc := fun h => heq (congrArg Prod.snd h)
        show ((t.file.bind op.loc.2 (op.setXid c r)).row rid).map _ = _
        rw [RecordFile.bind_row_of_ne _ _ heq]
        cases t.file.row rid with
        | none => rfl
        | some r' => rw [Option.map_some, Option.map_some, committed_cons, if_neg hloc]

/-- `t'` is the table `t` once the operations of the statement are committed. -/
structure Closed (db : Database D U) (tid : TableId) (t : Table D U) (ops : List Operation) (db' : Database D U)
    (t' : Table D U) : Prop where
  /-- The commit has taken one identifier. -/
  counter : db'.currentTrxId = db.currentTrxId + 1
  table : db'.tables tid = some t'
  /-- Committing does not touch an index. -/
  indexes : t'.indexes = t.indexes
  /-- Each row of the statement carries the identifier of the commit. -/
  row : ∀ rid, t'.file.row rid = (t.file.row rid).map (committed (db.currentTrxId + 1) ops (tid, rid))
  other : ∀ tid' ≠ tid, db'.tables tid' = db.tables tid'

/-- **`SqlResult::close`.**  All operations carry the new identifier. -/
theorem Opened.closeResult {db db₁ db' : Database D U} {T : Int} {tid : TableId} {t : Table D U}
    {ops : List Operation} {rc : RC} (h : Opened db T tid t ops db₁) (hstarted : Started db T)
    (hrun : closeResult db₁ T = .ok (rc, db')) : rc = .success ∧ ∃ t', Closed db tid t ops db' t' := by
  unfold Sql.closeResult at hrun
  obtain ⟨x, hx, hrun⟩ := ok_of_bind hrun
  obtain ⟨⟨rc', db₂⟩, hcommit, hrun⟩ := ok_of_bind hrun
  obtain ⟨db₃, hloop, hrun⟩ := ok_of_bind hrun
  obtain ⟨rfl, rfl⟩ := Prod.mk.inj (Except.ok.inj hrun)
  obtain rfl := Option.some.inj (h.trx.symm.trans (Database.activeTrx_ok hx).1)
  unfold Database.commit at hcommit
  obtain ⟨x', hx', hcommit⟩ := ok_of_bind hcommit
  obtain rfl := Option.some.inj (h.trx.symm.trans (Database.activeTrx_ok hx').1)
  obtain ⟨rfl, rfl⟩ := Prod.mk.inj (Except.ok.inj hcommit)
  have hnext : nextTrxId db₁.currentTrxId = db.currentTrxId + 1 := by
    have := hstarted.pos
    have := hstarted.le
    have := hstarted.lt
    rw [h.counter]
    exact nextTrxId_eq (by omega) (by omega)
  obtain ⟨hcounter, hother, t', ht', hindexes, hrows⟩ :=
    commitOperations_spec h.tids (if_pos rfl) (by exact h.table) hloop
  rw [hnext] at hcounter hrows
  exact ⟨rfl, t', hcounter, ht', hindexes, hrows, fun tid' hne => (hother tid' hne).trans (h.other tid' hne)⟩

/-! ## The statement -/

/-- There is a later transaction. -/
theorem Started.reader {db : Database D U} {T : Int} (h : Started db T) :
    db.currentTrxId + 1 < db.currentTrxId + 2 ∧ db.currentTrxId + 2 < maxTrxId := by
  have := h.lt
  omega

theorem StillFound.refl (reader : Int) (t : Table D U) : StillFound reader t t :=
  List.forall₂_same.mpr fun _ _ _ r' hr' _ hfound => hfound r' hr'

theorem RefusesAlike.refl (t : Table D U) : RefusesAlike t t :=
  List.forall₂_same.mpr fun _ _ _ _ _ => Iff.rfl

section Statement

variable {scanned db db' : Database D U} {T : Int} {stmt : Statement D} {t t₁ t' : Table D U} {rc : RC}
  {ops : List Operation}

/-- `open`, then `close`. -/
theorem writeResult_ok (hrun : writeResult scanned db T stmt = .ok (rc, db')) :
    ∃ rc₁ db₁ rcClose, stmt.openOperator scanned db T = .ok (rc₁, db₁) ∧
      closeResult db₁ T = .ok (rcClose, db') ∧ (rcClose = .success → rc = rc₁) := by
  unfold writeResult at hrun
  obtain ⟨⟨rc₁, db₁⟩, hopen, hrun⟩ := ok_of_bind hrun
  obtain ⟨⟨rcClose, db₂⟩, hclose, hrun⟩ := ok_of_bind hrun
  obtain ⟨rfl, rfl⟩ := Prod.mk.inj (Except.ok.inj hrun)
  refine ⟨rc₁, db₁, rcClose, hopen, hclose, fun hsucc => ?_⟩
  split
  · rfl
  · rename_i hrc₁
    rw [hsucc, not_not.mp hrc₁]

/-- What each later transaction should read in the table of the statement. -/
def SeenAtomic (scanned db : Database D U) (T : Int) (stmt : Statement D) (rc : RC) (db' : Database D U) : Prop :=
  ∀ reader, db'.currentTrxId < reader → reader < maxTrxId → seen db' reader stmt.tid =
    if rc = .success then stmt.outcome scanned db T reader else seen db reader stmt.tid

/-- Only the table of the statement counts. -/
theorem Closed.atomic_iff (stmt : Statement D) (h : Closed db stmt.tid t₁ ops db' t') (ht : db.tables stmt.tid = some t) :
    Atomic scanned db T stmt rc db' ↔ SeenAtomic scanned db T stmt rc db' ∧
      (∀ reader, db'.currentTrxId < reader → reader < maxTrxId → StillFound reader t t') ∧
      (rc ≠ .success → RefusesAlike t t') := by
  constructor
  · intro hatomic
    refine ⟨fun reader hlt hmax => ?_, fun reader hlt hmax => ?_, fun hrc => ?_⟩
    · have hseen := hatomic.seen reader hlt hmax stmt.tid
      simpa using hseen
    · obtain ⟨t'', ht'', hfound⟩ := hatomic.found reader hlt hmax stmt.tid t ht
      obtain rfl := Option.some.inj (h.table.symm.trans ht'')
      exact hfound
    · obtain ⟨t'', ht'', hrefuses⟩ := hatomic.refuses hrc stmt.tid t ht
      obtain rfl := Option.some.inj (h.table.symm.trans ht'')
      exact hrefuses
  · rintro ⟨hseen, hfound, hrefuses⟩
    refine ⟨fun reader hlt hmax tid => ?_, fun reader hlt hmax tid u hu => ?_, fun hrc tid u hu => ?_⟩
    · by_cases htid : tid = stmt.tid
      · subst htid
        simpa using hseen reader hlt hmax
      · rw [if_neg (fun hand => htid hand.1)]
        refine seen_congr ?_ reader
        rw [recordFile, recordFile, h.other tid htid]
    · by_cases htid : tid = stmt.tid
      · subst htid
        obtain rfl := Option.some.inj (ht.symm.trans hu)
        exact ⟨t', h.table, hfound reader hlt hmax⟩
      · exact ⟨u, (h.other tid htid).trans hu, .refl reader u⟩
    · by_cases htid : tid = stmt.tid
      · subst htid
        obtain rfl := Option.some.inj (ht.symm.trans hu)
        exact ⟨t', h.table, hrefuses hrc⟩
      · exact ⟨u, (h.other tid htid).trans hu, .refl u⟩

/-- Without operations, the commit changes nothing. -/
theorem Closed.eq_of_nil {tid : TableId} (h : Closed db tid t [] db' t') : t' = t := by
  have hrow : ∀ rid, t'.file.row rid = t.file.row rid := fun rid => by
    rw [h.row, committed_nil, Option.map_id]
    rfl
  have hindexes := h.indexes
  obtain ⟨f, is⟩ := t
  obtain ⟨f', is'⟩ := t'
  obtain rfl : is' = is := hindexes
  obtain rfl : f' = f := RecordFile.ext_row hrow
  rfl

/-- Nothing has been done, and nothing was to be done if the client is told that this is a success. -/
theorem Closed.atomic_of_idle (stmt : Statement D) (h : Closed db stmt.tid t [] db' t') (ht : db.tables stmt.tid = some t)
    (houtcome : rc = .success → ∀ reader, stmt.outcome scanned db T reader = seen db reader stmt.tid) :
    Atomic scanned db T stmt rc db' := by
  obtain rfl := h.eq_of_nil
  have hsame : ∀ reader, seen db' reader stmt.tid = seen db reader stmt.tid := fun reader => by
    rw [seen, seen, recordFile_of_table h.table, recordFile_of_table ht]
  refine (h.atomic_iff stmt ht).mpr ⟨fun reader _ _ => ?_, fun reader _ _ => .refl reader t', fun _ => .refl t'⟩
  split
  · rename_i hrc
    rw [houtcome hrc]
    exact hsame reader
  · exact hsame reader

end Statement

end Miniob.Sql
