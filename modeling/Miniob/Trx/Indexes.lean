/-
  The indexes of the database along a run.

  Every statement reaches the tables through `insert_record`, `delete_record` and the hidden fields,
  so the indexes list the records of their tables as long as no insertion is refused by the first
  index of its table, and no CREATE INDEX passes over records that its session does not see.
  Records that are not visible are still there: another transaction may commit them, and whoever
  removes them runs into the assertion of `Table::delete_record`.
-/
import Miniob.Db.Indexed
import Miniob.Trx.UpdateIsolation

namespace Miniob.Trx

open Miniob.Common Miniob.Db Miniob.Storage

variable {D U : Type}

/-! ## UPDATE -/

/-- No insertion of the loop is refused by the first index. -/
def RowsAdmitted (p : Placement D) : Nat → Table D U → List (Row D) → Prop
  | _, _, [] => True
  | n, t, r :: rows => t.Admits (p.place n) r ∧ ∀ rid t',
    t.insertRecord (p.place n) r = .ok (.success, rid, t') → RowsAdmitted p (n + 1) t' rows

/-- Nor is any insertion of an UPDATE statement: neither one of a new row nor, when it is taken back,
    one of an old row. -/
def UpdateAdmitted (t : Table D U) (trxId : Int) (stmt : UpdateStmt D) (p : Placement D) : Prop :=
  let oldRecords := stmt.selected trxId t
  let newRecords := oldRecords.map fun old => { old.2 with data := stmt.set old.2.data }
  ∀ n t₁, deleteOldRows p 0 t [] oldRecords = .ok (.success, n, t₁) →
    RowsAdmitted p n t₁ newRecords ∧
    ∀ rc n₂ done t₂ t₃, insertNewRows p n t₁ [] newRecords = .ok (rc, n₂, done, t₂) →
      deleteRows t₂ done = .ok (.success, t₃) → RowsAdmitted p n₂ t₃ (oldRecords.map Prod.snd)

section Update

variable {t : Table D U} {p : Placement D} {n : Nat}

/-- The rows are stored, each at its own place. -/
def AreStored (f : RecordFile D) (rows : List (RecordId × Row D)) : Prop :=
  (rows.map Prod.fst).Nodup ∧ ∀ o ∈ rows, f.row o.1 = some o.2

/-- The other rows are still stored when the first one is gone. -/
theorem AreStored.tail {f : RecordFile D} {o : RecordId × Row D} {rows : List (RecordId × Row D)}
    (h : AreStored f (o :: rows)) : AreStored (f.unbind o.1) rows := by
  obtain ⟨hnot, hnd⟩ := List.nodup_cons.mp h.1
  refine ⟨hnd, fun o' ho' => ?_⟩
  rw [RecordFile.unbind_row_of_ne]
  · exact h.2 o' (List.mem_cons_of_mem o ho')
  · intro heq
    exact hnot (heq ▸ List.mem_map_of_mem ho')

/-- All rows that are stored are deleted. -/
theorem deleteOldRows_indexed {rows : List (RecordId × Row D)} {done : List (Row D)}
    (h : t.Indexed) (hrows : AreStored t.file rows) :
    ∃ t', deleteOldRows p n t done rows = .ok (.success, n, t') ∧ t'.Indexed := by
  induction rows generalizing t done with
  | nil => exact ⟨t, rfl, h⟩
  | cons o rows ih =>
    obtain ⟨t₁, hdel, h₁, hfile⟩ := h.deleteRecord (hrows.2 o (by simp))
    obtain ⟨t', hrun, h'⟩ := @ih t₁ (o.2 :: done) h₁ (hfile ▸ hrows.tail)
    refine ⟨t', ?_, h'⟩
    rw [deleteOldRows, bind_ok _ hdel]
    exact hrun

/-- Row by row; none is missing. -/
theorem deleteRows_indexed {rows : List (RecordId × Row D)} (h : t.Indexed)
    (hrows : AreStored t.file rows) :
    ∃ t', deleteRows t rows = .ok (.success, t') ∧ t'.Indexed := by
  induction rows generalizing t with
  | nil => exact ⟨t, rfl, h⟩
  | cons o rows ih =>
    obtain ⟨t₁, hdel, h₁, hfile⟩ := h.deleteRecord (hrows.2 o (by simp))
    obtain ⟨t', hrun, h'⟩ := ih h₁ (hfile ▸ hrows.tail)
    refine ⟨t', ?_, h'⟩
    rw [deleteRows, bind_ok _ hdel]
    exact hrun

/-- Row by row; the first index refuses none. -/
theorem insertRows_indexed {rows : List (Row D)} (h : t.Indexed) (hadm : RowsAdmitted p n t rows) :
    ∃ rc n' t', insertRows p n t rows = .ok (rc, n', t') ∧ t'.Indexed := by
  induction rows generalizing t n with
  | nil => exact ⟨_, n, t, rfl, h⟩
  | cons r rows ih =>
    obtain ⟨rc, rid, t₁, hins, h₁, -⟩ := h.insertRecord hadm.1
    rw [insertRows, bind_ok _ hins]
    dsimp only
    by_cases hrc : rc = .success
    · subst hrc
      rw [if_neg (by simp)]
      exact ih h₁ (hadm.2 rid t₁ hins)
    · rw [if_pos hrc]
      exact ⟨rc, n + 1, t₁, rfl, h₁⟩

/-- What the second loop has inserted is stored. -/
theorem insertNewRows_indexed {rows : List (Row D)} {done : List (RecordId × Row D)} (h : t.Indexed)
    (hadm : RowsAdmitted p n t rows) (hdone : AreStored t.file done) :
    ∃ rc n' done' t', insertNewRows p n t done rows = .ok (rc, n', done', t') ∧ t'.Indexed ∧
      AreStored t'.file done' := by
  induction rows generalizing t n done with
  | nil => exact ⟨_, n, done, t, rfl, h, hdone⟩
  | cons r rows ih =>
    obtain ⟨rc, rid, t₁, hins, h₁, hfail, hok⟩ := h.insertRecord hadm.1
    rw [insertNewRows, bind_ok _ hins]
    dsimp only
    by_cases hrc : rc = .success
    · subst hrc
      obtain ⟨rid', rfl, hfree, hfile⟩ := hok rfl
      refine ih h₁ (hadm.2 _ t₁ hins) ⟨List.nodup_cons.mpr ⟨?_, hdone.1⟩, ?_⟩
      · intro hmem
        obtain ⟨o, ho, heq⟩ := List.mem_map.mp hmem
        have hrow := hdone.2 o ho
        rw [heq] at hrow
        cases hfree.symm.trans hrow
      · intro o ho
        rw [hfile]
        rcases List.mem_cons.mp ho with rfl | ho
        · exact RecordFile.bind_row_self ..
        · rw [RecordFile.bind_row_of_ne]
          · exact hdone.2 o ho
          · intro heq
            rw [← heq, hdone.2 o ho] at hfree
            cases hfree
    · refine ⟨rc, n + 1, done, t₁, ?_, h₁, by rwa [hfail hrc]⟩
      split
      · exact absurd rfl hrc
      · rfl

/-- The rows a scan returns, in the order of the record identifiers read. -/
theorem scanRecords_sublist {trxId : Int} {f : RecordFile D} {select : D → Bool} :
    ∀ rids : List RecordId,
      ((scanRecords trxId f select rids).2.map Prod.fst).Sublist rids
  | [] => .slnil
  | rid :: rids => by
    have ih := @scanRecords_sublist trxId f select rids
    rw [scanRecords]
    split
    · exact ih.cons rid
    · split
      · exact ih.cons rid
      · dsimp only
        split
        · exact ih.cons_cons rid
        · exact ih.cons rid
      · exact List.nil_sublist _

/-- What is selected is in the file. -/
theorem selected_stored (t : Table D U) (trxId : Int) (stmt : UpdateStmt D) :
    AreStored t.file (stmt.selected trxId t) := by
  constructor
  · unfold UpdateStmt.selected
    split
    · rename_i oldRecords hscan
      have hsub := @scanRecords_sublist D trxId t.file stmt.select (stmt.access.rids t.file)
      rw [hscan] at hsub
      exact hsub.nodup (stmt.access.nodup t.file)
    · exact .nil
  · intro o ho
    exact (scanRecords_mem (UpdateStmt.selected_mem ho)).2.1

/-- **UPDATE.** -/
theorem openUpdate_indexed {trxId : Int} {stmt : UpdateStmt D} (h : t.Indexed)
    (hadm : UpdateAdmitted t trxId stmt p) :
    ∃ rc t', openUpdate t trxId stmt p = .ok (rc, t') ∧ t'.Indexed := by
  have hstored := selected_stored t trxId stmt
  unfold openUpdate
  cases hscan : scanRecords trxId t.file stmt.select (stmt.access.rids t.file) with
  | mk rc₀ oldRecords =>
  dsimp only
  by_cases hrc₀ : rc₀ = .recordEof
  · subst hrc₀
    obtain rfl : stmt.selected trxId t = oldRecords := by
      unfold UpdateStmt.selected
      rw [hscan]
    rw [if_neg (by simp)]
    obtain ⟨t₁, hdel, h₁⟩ := @deleteOldRows_indexed D U t p 0 _ [] h hstored
    obtain ⟨hnew, hback⟩ := hadm 0 t₁ hdel
    rw [bind_ok _ hdel]
    dsimp only
    rw [if_neg (by simp)]
    obtain ⟨rc₂, n₂, done, t₂, hins, h₂, hdone⟩ := @insertNewRows_indexed D U _ _ _ _ [] h₁ hnew
      ⟨List.nodup_nil, List.forall_mem_nil _⟩
    rw [bind_ok _ hins]
    dsimp only
    by_cases hrc₂ : rc₂ = .success
    · rw [if_pos hrc₂]
      exact ⟨_, t₂, rfl, h₂⟩
    · rw [if_neg hrc₂]
      obtain ⟨t₃, hdel₃, h₃⟩ := deleteRows_indexed h₂ hdone
      rw [bind_ok _ hdel₃]
      dsimp only
      rw [if_neg (by simp)]
      obtain ⟨rc₄, n₄, t₄, hins₄, h₄⟩ := insertRows_indexed h₃ (hback _ _ _ _ _ hins hdel₃)
      rw [bind_ok _ hins₄]
      dsimp only
      split
      · exact ⟨_, t₄, rfl, h₄⟩
      · exact ⟨_, t₄, rfl, h₄⟩
  · rw [if_pos hrc₀]
    exact ⟨_, t, rfl, h⟩

end Update

/-! ## The database -/

/-- Insertions are not refused by the first index, and CREATE INDEX is on columns without NULL and sees every
    record. -/
def KeepsIndexes (db : Database D U) (a : Action D U) : Prop :=
  match a with
  | .insertRecord trxId tid data p => ∀ t, db.tables tid = some t →
    t.Admits (p.place 0) ⟨-trxId, maxTrxId, data⟩
  | .insertMadeRecord tid data p => ∀ t, db.tables tid = some t → t.Admits (p.place 0) ⟨0, 0, data⟩
  | .update trxId tid stmt p => ∀ t, db.tables tid = some t → UpdateAdmitted t trxId stmt p
  | .createIndex trxId tid m => ∀ t, db.tables tid = some t → t.CreatesIndex trxId m
  | _ => True

/-- Every index of every table lists the records of the table. -/
def Indexes (db : Database D U) : Prop := ∀ tid t, db.tables tid = some t → t.Indexed

section Step

variable {db db' : Database D U} {rc : RC}

/-- The database is indexed if the new table is. -/
theorem Indexes.setTable (h : Indexes db) {tid : TableId} {t : Table D U} (ht : t.Indexed) :
    Indexes (db.setTable tid t) := by
  intro tid' t' ht'
  replace ht' : (if tid' = tid then some t else db.tables tid') = some t' := ht'
  split at ht'
  · obtain rfl := Option.some.inj ht'
    exact ht
  · exact h tid' t' ht'

/-- The step succeeds and the indexes list the records, or it is one that nobody takes or that an
    assertion of the transaction stops. -/
def Maintains (out : Except Fault (RC × Database D U)) : Prop :=
  (∃ rc db', out = .ok (rc, db') ∧ Indexes db') ∨ out = .error .disabled ∨ out = .error .commit ∨
    out = .error .rollback

theorem findTable_cases (db : Database D U) (tid : TableId) :
    (∃ t, db.findTable tid = .ok t ∧ db.tables tid = some t) ∨
      db.findTable tid = .error .disabled := by
  unfold Database.findTable
  cases h : db.tables tid with
  | some t => exact Or.inl ⟨t, rfl, rfl⟩
  | none => exact Or.inr rfl

/-- The transaction runs, or the call is refused. -/
theorem activeTrx_cases (db : Database D U) (T : Int) :
    (∃ x, db.activeTrx T = .ok x) ∨ db.activeTrx T = .error .disabled := by
  unfold Database.activeTrx
  cases h : db.trx T with
  | none => exact Or.inr rfl
  | some x =>
    dsimp only
    split
    · exact Or.inl ⟨x, rfl⟩
    · exact Or.inr rfl

theorem Maintains.disabled {out : Except Fault (RC × Database D U)} (h : out = .error .disabled) :
    Maintains out := Or.inr (Or.inl h)

/-- A step that first looks for the table. -/
theorem Maintains.findTable {tid : TableId}
    {f : Table D U → Except Fault (RC × Database D U)}
    (h : ∀ t, db.tables tid = some t → Maintains (f t)) : Maintains (db.findTable tid >>= f) := by
  rcases findTable_cases db tid with ⟨t, hfind, ht⟩ | herr
  · rw [bind_ok _ hfind]
    exact h t ht
  · rw [herr]
    exact .disabled rfl

/-- A step of a running transaction. -/
theorem Maintains.activeTrx {T : Int} {f : MvccTrx → Except Fault (RC × Database D U)}
    (h : ∀ x, Maintains (f x)) : Maintains (db.activeTrx T >>= f) := by
  rcases activeTrx_cases db T with ⟨x, hx⟩ | herr
  · rw [bind_ok _ hx]
    exact h x
  · rw [herr]
    exact .disabled rfl

theorem Maintains.ok {rc : RC} (h : Indexes db') : Maintains (.ok (rc, db')) :=
  Or.inl ⟨rc, db', rfl, h⟩

/-- **Step.** -/
theorem Indexes.step (h : Indexes db) {a : Action D U} (hok : KeepsIndexes db a) :
    Maintains (db.step a) := by
  cases a with
  | start => exact .ok h
  | insertRecord T tid data p =>
    refine Maintains.activeTrx fun x => Maintains.findTable fun t ht => ?_
    obtain ⟨rc, rid, t', hins, h', -⟩ := (h tid t ht).insertRecord (hok t ht)
    rw [bind_ok _ hins]
    dsimp only
    split
    · exact .ok (h.setTable h')
    · exact .ok (h.setTable h')
  | deleteRecord T tid rid =>
    refine Maintains.activeTrx fun x => Maintains.findTable fun t ht => ?_
    dsimp only
    cases hr : t.file.row rid with
    | none => exact .ok h
    | some r =>
      dsimp only
      split
      · exact .ok h
      · exact .ok (h.setTable ((h tid t ht).rebind hr rfl))
  | commit T => exact Maintains.activeTrx fun x => .ok h
  | commitOperation T =>
    show Maintains (db.commitOperation T)
    unfold Database.commitOperation
    split
    · rename_i operations op pending c hx
      refine Maintains.findTable fun t ht => ?_
      cases hr : t.file.row op.loc.2 with
      | none => exact Or.inr (Or.inr (Or.inl rfl))
      | some r =>
        dsimp only
        split
        · exact Or.inr (Or.inr (Or.inl rfl))
        · refine .ok (h.setTable ((h _ t ht).rebind hr ?_))
          obtain ⟨type, l⟩ := op
          cases type <;> rfl
    · exact .disabled rfl
  | rollback T => exact Maintains.activeTrx fun x => .ok h
  | rollbackOperation T =>
    show Maintains (db.rollbackOperation T)
    unfold Database.rollbackOperation
    split
    · rename_i operations op pending hx
      refine Maintains.findTable fun t ht => ?_
      dsimp only
      split
      · obtain ⟨rc, t', hdel, h'⟩ := (h _ t ht).deleteRecordAt op.loc.2
        rw [bind_ok _ hdel]
        dsimp only
        split
        · exact Or.inr (Or.inr (Or.inr rfl))
        · exact .ok (h.setTable h')
      · cases hr : t.file.row op.loc.2 with
        | none => exact Or.inr (Or.inr (Or.inr rfl))
        | some r =>
          dsimp only
          split
          · exact Or.inr (Or.inr (Or.inr rfl))
          · exact .ok (h.setTable ((h _ t ht).rebind hr rfl))
    · exact .disabled rfl
  | createTable tid =>
    show Maintains (db.createTable tid)
    unfold Database.createTable
    split
    · exact .disabled rfl
    · exact .ok (h.setTable .empty)
  | createIndex T tid m =>
    refine Maintains.findTable fun t ht => ?_
    obtain ⟨rc, t', hrun, h'⟩ := (h tid t ht).createIndex (hok t ht)
    rw [bind_ok _ hrun]
    exact .ok (h.setTable h')
  | update T tid stmt p =>
    refine Maintains.activeTrx fun x => Maintains.findTable fun t ht => ?_
    obtain ⟨rc, t', hrun, h'⟩ := openUpdate_indexed (h tid t ht) (hok t ht)
    rw [bind_ok _ hrun]
    exact .ok (h.setTable h')
  | insertMadeRecord tid data p =>
    refine Maintains.findTable fun t ht => ?_
    obtain ⟨rc, rid, t', hins, h', -⟩ := (h tid t ht).insertRecord (hok t ht)
    rw [bind_ok _ hins]
    exact .ok (h.setTable h')

end Step

/-- **Run.** -/
theorem indexes_of_reachable {ok : Database D U → Action D U → Prop}
    (himp : ∀ db a, ok db a → KeepsIndexes db a) {db : Database D U}
    (h : Reachable Database.step ok .empty db) : Indexes db := by
  refine h.invariant (I := Indexes) ?_ ?_
  · intro tid t ht
    cases ht
  · intro db a rc db' hdb hok hstep
    rcases hdb.step (himp db a hok) with ⟨rc', db₁, hrun, h₁⟩ | herr | herr | herr
    · obtain ⟨-, rfl⟩ := Prod.mk.inj (Except.ok.inj (hstep.symm.trans hrun))
      exact h₁
    · cases hstep.symm.trans herr
    · cases hstep.symm.trans herr
    · cases hstep.symm.trans herr

/-! ## Deletions find their entries -/

/-- Each index holds exactly the entries of the stored records, and every stored record can be
    deleted. -/
def IndexesExact (db : Database D U) : Prop :=
  ∀ tid t, db.tables tid = some t → (∀ i ∈ t.indexes, i.Lists t.file) ∧
    ∀ rid r, t.file.row rid = some r → ∃ t', t.deleteRecord r.data rid = .ok (.success, t')

end Miniob.Trx
