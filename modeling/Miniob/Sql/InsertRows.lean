/-
  What an INSERT of several rows leaves behind when it fails.

  1. **The steps** — `insert_record` and `delete_record` of a running transaction do not fault
     (`Running.insertRecord`, `Running.deleteRecord`).
  2. **Nothing is removed** — a row that the transaction has inserted keeps its begin mark, whatever else
     the statement does: `delete_record` sets the end mark, and `visit_record` looks at the begin mark
     first.  So it is still there, and visible, after it has been taken back.
  3. **All or the first** — hence a statement that fails leaves nothing exactly if its first row fails.
-/
import Miniob.Db.Backed
import Miniob.Sql.InsertDelete
import Miniob.Trx.Rollback

namespace Miniob.Sql

open Miniob.Common Miniob.Db Miniob.Storage Miniob.Trx

variable {D U : Type}

/-! ## What is left -/

/-- No row has become visible to the transaction, and no index has got an entry. -/
def NothingRemains (T : Int) (t t' : Table D U) : Prop :=
  (∀ rid r, t.file.row rid = none → t'.file.row rid = some r → ¬ Visible T r) ∧
  List.Forall₂ Shrinks t.indexes t'.indexes

/-- If `open` fails, nothing of the statement remains. -/
def InsertStmt.AllOrNothing (db : Database D U) (T : Int) (stmt : InsertStmt D) : Prop :=
  ∃ rc db', openInsert T stmt 0 [] db stmt.rows = .ok (rc, db') ∧ (rc ≠ .success →
    ∃ t t', db.tables stmt.tid = some t ∧ db'.tables stmt.tid = some t' ∧ NothingRemains T t t')

/-- The table takes the records, one after the other. -/
def InsertStmt.Takes (T : Int) (stmt : InsertStmt D) (n : Nat) (t : Table D U) (ds : List D) : Prop :=
  ∃ t₁, stmt.Stores T n t ds t₁

/-- If the first row is made and the table takes it, then all rows are made and the table takes them. -/
def InsertStmt.AllOrFirstFails (T : Int) (stmt : InsertStmt D) (t : Table D U) : Prop :=
  ∀ d rest, stmt.rows = .ok d :: rest → stmt.Takes T 0 t [d] →
    ∃ ds, stmt.rows = ds.map .ok ∧ stmt.Takes T 0 t ds

/-! ## The steps of the transaction -/

/-- The transaction runs, and the table is there. -/
structure Running (db : Database D U) (T : Int) (tid : TableId) (t : Table D U) : Prop where
  active : ∃ x, db.activeTrx T = .ok x
  table : db.tables tid = some t
  sound : t.Sound

/-- The rows with the begin mark of the transaction are still there. -/
def KeepsOwn (T : Int) (t t' : Table D U) : Prop :=
  ∀ rid r, t.file.row rid = some r → r.beginXid = -T → ∃ r', t'.file.row rid = some r' ∧ r'.beginXid = -T

theorem KeepsOwn.trans {T : Int} {t t' t'' : Table D U} (h : KeepsOwn T t t') (h' : KeepsOwn T t' t'') :
    KeepsOwn T t t'' := by
  intro rid r hr hbegin
  obtain ⟨r', hr', hbegin'⟩ := h rid r hr hbegin
  exact h' rid r' hr' hbegin'

section Steps

variable {db : Database D U} {T : Int} {tid : TableId} {t : Table D U}

theorem activeTrx_of_phase {x : MvccTrx} (h : db.trx T = some x) (hphase : x.phase = .active) :
    db.activeTrx T = .ok x := by
  unfold Database.activeTrx
  rw [h]
  dsimp only
  rw [if_pos hphase]

theorem Running.findTable (h : Running db T tid t) : db.findTable tid = .ok t := by
  unfold Database.findTable
  rw [h.table]

theorem KeepsOwn.insertRecord {p : Placement D} {n : Nat} {r : Row D} {rc : RC} {rid : Option RecordId}
    {t' : Table D U} (hrun : t.insertRecord (p.place n) r = .ok (rc, rid, t')) : KeepsOwn T t t' := by
  intro rid' r' hr' hbegin
  cases Table.insertRecord_file hrun with
  | stored hfree hfile =>
    refine ⟨r', ?_, hbegin⟩
    rw [hfile, RecordFile.bind_row_of_ne, hr']
    rintro rfl
    cases hfree.symm.trans hr'
  | rejected _ hfile => exact ⟨r', hfile ▸ hr', hbegin⟩

/-- **`insert_record`.** -/
theorem Running.insertRecord (h : Running db T tid t) (data : D) (p : Placement D) :
    ∃ rc rid t' db', t.insertRecord (p.place 0) ⟨-T, maxTrxId, data⟩ = .ok (rc, rid, t') ∧
      db.insertRecord T tid data p = .ok (rc, db') ∧ Running db' T tid t' := by
  obtain ⟨x, hx⟩ := h.active
  obtain ⟨rc, rid, t', hins, hsound⟩ := h.sound.insertRecord_ok (p.place 0) ⟨-T, maxTrxId, data⟩
  obtain ⟨htrx, hphase⟩ := Database.activeTrx_ok hx
  have hrun : ∃ db', db.insertRecord T tid data p = .ok (rc, db') ∧
      (∃ x', db'.activeTrx T = .ok x') ∧ db'.tables tid = some t' := by
    unfold Database.insertRecord
    rw [bind_ok _ hx, bind_ok _ h.findTable, bind_ok _ hins]
    dsimp only
    split
    · exact ⟨_, rfl, ⟨_, activeTrx_of_phase (if_pos rfl) hphase⟩, if_pos rfl⟩
    · have hactive : (db.setTable tid t').activeTrx T = .ok x := activeTrx_of_phase htrx hphase
      exact ⟨_, rfl, ⟨_, hactive⟩, if_pos rfl⟩
  obtain ⟨db', hrun, hactive, ht'⟩ := hrun
  exact ⟨rc, rid, t', db', hins, hrun, hactive, ht', hsound⟩

/-- **`delete_record`.** -/
theorem Running.deleteRecord (h : Running db T tid t) (rid : RecordId) :
    ∃ rc t' db', db.deleteRecord T tid rid = .ok (rc, db') ∧ Running db' T tid t' ∧ KeepsOwn T t t' := by
  obtain ⟨x, hx⟩ := h.active
  obtain ⟨htrx, hphase⟩ := Database.activeTrx_ok hx
  unfold Database.deleteRecord
  rw [bind_ok _ hx, bind_ok _ h.findTable]
  dsimp only
  cases hr : t.file.row rid with
  | none => exact ⟨_, t, db, rfl, h, fun rid' r' hr' hb => ⟨r', hr', hb⟩⟩
  | some r =>
    dsimp only
    split
    · exact ⟨_, t, db, rfl, h, fun rid' r' hr' hb => ⟨r', hr', hb⟩⟩
    · refine ⟨_, _, _, rfl, ⟨⟨_, activeTrx_of_phase (if_pos rfl) hphase⟩, if_pos rfl, h.sound⟩, ?_⟩
      intro rid' r' hr' hb
      by_cases heq : rid' = rid
      · subst heq
        obtain rfl := Option.some.inj (hr.symm.trans hr')
        exact ⟨_, RecordFile.bind_row_self .., hb⟩
      · exact ⟨r', (RecordFile.bind_row_of_ne _ _ heq).trans hr', hb⟩

/-- Taking rows back removes none. -/
theorem Running.takeBackRows {records : List RecordId} : ∀ {db : Database D U} {t : Table D U},
    Running db T tid t → ∃ db' t', takeBackRows T tid db records = .ok db' ∧ Running db' T tid t' ∧
      KeepsOwn T t t' := by
  induction records with
  | nil => exact fun {db t} h => ⟨db, t, rfl, h, fun rid r hr hb => ⟨r, hr, hb⟩⟩
  | cons rid records ih =>
    intro db t h
    obtain ⟨rc, t₁, db₁, hdel, h₁, hown⟩ := h.deleteRecord rid
    rw [Sql.takeBackRows, bind_ok _ hdel]
    dsimp only
    split
    · exact ⟨db₁, t₁, rfl, h₁, hown⟩
    · obtain ⟨db', t', hrun, h', hown'⟩ := ih h₁
      exact ⟨db', t', hrun, h', hown.trans hown'⟩

/-! ## The loop -/

theorem InsertStmt.takes_cons {stmt : InsertStmt D} {n : Nat} {d : D} {ds : List D} {rid : Option RecordId}
    {t' : Table D U}
    (h : t.insertRecord ((stmt.placement n).place 0) ⟨-T, maxTrxId, d⟩ = .ok (.success, rid, t')) :
    stmt.Takes T n t (d :: ds) ↔ stmt.Takes T (n + 1) t' ds := by
  constructor
  · rintro ⟨t₁, rid', t'', hrun, hrest⟩
    cases h.symm.trans hrun
    exact ⟨t₁, hrest⟩
  · exact fun ⟨t₁, hrest⟩ => ⟨t₁, rid, t', h, hrest⟩

/-- **`open`** succeeds exactly if all rows are made and stored, and removes none of the rows before. -/
theorem Running.openInsert {stmt : InsertStmt D} : ∀ {todo : List (Except RC D)} {n : Nat}
    {records : List RecordId} {db : Database D U} {t : Table D U}, (∀ rc, .error rc ∈ todo → rc ≠ .success) →
    Running db T stmt.tid t →
    ∃ rc db' t', openInsert T stmt n records db todo = .ok (rc, db') ∧ db'.tables stmt.tid = some t' ∧
      KeepsOwn T t t' ∧ (rc = .success ↔ ∃ ds, todo = ds.map .ok ∧ stmt.Takes T n t ds) := by
  -- the induction is on the rows that are left to insert
  intro todo
  induction todo with
  | nil =>
    intro n records db t _ h
    exact ⟨_, db, t, rfl, h.table, fun rid r hr hb => ⟨r, hr, hb⟩, iff_of_true rfl ⟨[], rfl, t, rfl⟩⟩
  | cons row todo ih =>
    intro n records db t hfailed h
    cases row with
    -- a row that cannot be made ends the statement
    | error rc =>
      refine ⟨rc, db, t, rfl, h.table, fun rid r hr hb => ⟨r, hr, hb⟩,
        iff_of_false (hfailed rc (by simp)) ?_⟩
      rintro ⟨ds, hds, -⟩
      cases ds <;> cases hds
    | ok d =>
      obtain ⟨rc, rid, t₁, db₁, hins, hrow, h₁⟩ := h.insertRecord d (stmt.placement n)
      have hown := KeepsOwn.insertRecord (T := T) hins
      rw [Sql.openInsert, bind_ok _ hrow]
      dsimp only
      split
      -- the row is refused: the rows inserted so far are taken back
      · rename_i hrc
        obtain ⟨db', t', hback, h', hown'⟩ := @Running.takeBackRows D U T stmt.tid records _ _ h₁
        rw [bind_ok _ hback]
        refine ⟨rc, db', t', rfl, h'.table, hown.trans hown', iff_of_false hrc ?_⟩
        rintro ⟨ds, hds, hstores⟩
        -- had the statement taken every row, this one would have been inserted
        cases ds with
        | nil => cases hds
        | cons d' ds =>
          obtain ⟨_, rid', t'', hins', -⟩ := hstores
          cases (List.cons.inj hds).1
          cases hins.symm.trans hins'
          exact hrc rfl
      · rename_i hrc
        obtain rfl := not_not.mp hrc
        -- the row is inserted: the rest goes on with one record more to take back
        obtain ⟨rc', db', t', hrun, ht', hown', hiff⟩ :=
          @ih (n + 1) (lastRecord db₁ T ++ records) db₁ t₁
            (fun rc hmem => hfailed rc (List.mem_cons_of_mem _ hmem)) h₁
        refine ⟨rc', db', t', hrun, ht', hown.trans hown', hiff.trans ⟨?_, ?_⟩⟩
        · rintro ⟨ds, rfl, hstores⟩
          exact ⟨d :: ds, rfl, (InsertStmt.takes_cons hins).mpr hstores⟩
        · rintro ⟨ds, hds, hstores⟩
          cases ds with
          | nil => cases hds
          | cons d' ds =>
            obtain ⟨hd, hrest⟩ := List.cons.inj hds
            cases hd
            exact ⟨ds, hrest, (InsertStmt.takes_cons hins).mp hstores⟩

/-- If the table takes the first row, then this row remains whenever `open` fails. -/
theorem Running.allOrNothing_cons {stmt : InsertStmt D} (h : Running db T stmt.tid t) (hT : 0 < T)
    {d : D} {rest : List (Except RC D)} (hrows : stmt.rows = .ok d :: rest) {rid : Option RecordId}
    {t₁ : Table D U}
    (hins : t.insertRecord ((stmt.placement 0).place 0) ⟨-T, maxTrxId, d⟩ = .ok (.success, rid, t₁)) :
    stmt.AllOrNothing db T ↔ ∃ ds, stmt.rows = ds.map .ok ∧ stmt.Takes T 0 t ds := by
  obtain ⟨rc, db', t', hrun, ht', -, hiff⟩ := @Running.openInsert D U T stmt _ 0 [] db t stmt.failed h
  rw [← hiff]
  constructor
  · rintro ⟨rc', db'', hrun', hnothing⟩
    cases hrun.symm.trans hrun'
    by_contra hrc
    obtain ⟨t₀, t'', ht₀, ht'', hrows', -⟩ := hnothing hrc
    cases h.table.symm.trans ht₀
    cases ht'.symm.trans ht''
    -- the row that was stored first
    cases Table.insertRecord_file hins with
    | rejected hrc _ => exact hrc rfl
    | stored hfree hfile =>
      rename_i rid₁
      obtain ⟨rc₁, rid₁', t₁', db₁, hins₁, hrow₁, h₁⟩ := h.insertRecord d (stmt.placement 0)
      cases hins.symm.trans hins₁
      obtain ⟨rc₂, db₂, t₂, hrun₂, ht₂, hown₂, -⟩ :=
        @Running.openInsert D U T stmt rest 1 (lastRecord db₁ T) db₁ _
          (fun rc hmem => stmt.failed rc (hrows ▸ List.mem_cons_of_mem _ hmem)) h₁
      have hsame : Sql.openInsert T stmt 0 [] db stmt.rows = .ok (rc₂, db₂) := by
        rw [hrows, Sql.openInsert, bind_ok _ hrow₁]
        simpa using hrun₂
      cases hrun.symm.trans hsame
      cases ht'.symm.trans ht₂
      obtain ⟨r', hr', hbegin⟩ := hown₂ rid₁ ⟨-T, maxTrxId, d⟩
        (by rw [hfile, RecordFile.bind_row_self]) rfl
      refine hrows' rid₁ r' hfree hr' (visible_iff.mpr (Or.inr (Or.inl ?_)))
      omega
  · exact fun hrc => ⟨rc, db', hrun, fun hne => absurd hrc hne⟩

end Steps

/-! ## The statement -/

/-- A table with a unique index, after transaction 1 has started. -/
def keyedStart : Database Int Int :=
  match runOps Database.step oneTable [.createIndex (-1) 0 (intIndex true), .start] with
  | .ok (_, db) => db
  | .error _ => oneTable

theorem reachable_keyedStart :
    Reachable Database.step (fun db a => CountsUp db a ∧ OrderedKeys a) .empty keyedStart := by
  have h₁ := reachable_oneTable.next (.createIndex (-1) 0 (intIndex true)) ⟨trivial, Int.instTransOrd⟩ rfl
  exact h₁.next .start ⟨by show (0 : Int) + 1 < maxTrxId; decide, trivial⟩ rfl

end Miniob.Sql
