/-
  The UPDATE operator (`UpdatePhysicalOperator::open` in
  src/observer/sql/operator/update_physical_operator.cpp).

  The operator first collects the rows its child operator returns, then removes all of them from
  the table and inserts the changed copies, hidden fields included; it does not go through the
  transaction.  When an insertion fails it removes the new rows again and inserts the old ones.

  The new values are computed once, before the first row is read, so SET copies the same bytes into every row
  (`SetClause`).  An expression that reads a column does not get that far: there is no row yet, and the
  `ShellTuple` in its place stops the server.

  Left out: the expressions behind the new values and the detour over a view.
-/
import Miniob.Db.InsertRecord

namespace Miniob.Trx

open Miniob.Common Miniob.Db Miniob.Storage

variable {D U : Type}

/-- The record identifiers the child operator reads, in order: every row of the file in a table
    scan, the rows of a key range in an index scan. -/
structure Access (D : Type) where
  rids : RecordFile D → List RecordId
  nodup : ∀ f, (rids f).Nodup
  stored : ∀ f, ∀ rid ∈ rids f, (f.row rid).isSome

/-- The table scan. -/
def Access.tableScan : Access D where
  rids := RecordFile.rids
  nodup f := f.sorted.imp fun {a b} hab hne => by
    rw [hne, @Std.ReflCmp.compare_self _ ridCmp] at hab
    cases hab
  stored f rid h := (f.mem_rids rid).mp h

/-- What SET makes of a record.  The values do not depend on the record, so doing it again changes nothing. -/
structure SetClause (D : Type) where
  apply : D → D
  again : ∀ d, apply (apply d) = apply d

instance : CoeFun (SetClause D) fun _ => D → D := ⟨SetClause.apply⟩

/-- An UPDATE statement. -/
structure UpdateStmt (D : Type) where
  access : Access D
  select : D → Bool
  set : SetClause D

/-- What the child operator returns: the rows the transaction may write and the predicates select.
    It ends with `RECORD_EOF`, or with the conflict it meets. -/
def scanRecords (trxId : Int) (f : RecordFile D) (select : D → Bool) :
    List RecordId → RC × List (RecordId × Row D)
  | [] => (.recordEof, [])
  | rid :: rids =>
    match f.row rid with
    | none => scanRecords trxId f select rids
    | some r =>
      match visitRecord trxId .readWrite r with
      | .recordInvisible => scanRecords trxId f select rids
      | .success =>
        let (rc, records) := scanRecords trxId f select rids
        if select r.data then (rc, (rid, r) :: records) else (rc, records)
      | rc => (rc, [])

/-- Insert rows until one insertion fails; `n` counts the insertions of the statement. -/
def insertRows (p : Placement D) :
    Nat → Table D U → List (Row D) → Except Fault (RC × Nat × Table D U)
  | n, t, [] => .ok (.success, n, t)
  | n, t, r :: rows => do
    let (rc, _, t) ← t.insertRecord (p.place n) r
    if rc ≠ .success then return (rc, n + 1, t)
    insertRows p (n + 1) t rows

/-- Delete rows until one deletion fails. -/
def deleteRows : Table D U → List (RecordId × Row D) → Except Fault (RC × Table D U)
  | t, [] => .ok (.success, t)
  | t, (rid, r) :: rows => do
    let (rc, t) ← t.deleteRecord r.data rid
    if rc ≠ .success then return (rc, t)
    deleteRows t rows

/-- The first loop of `open`: delete the old rows; on a failure insert those that are gone, the last
    one first. -/
def deleteOldRows (p : Placement D) :
    Nat → Table D U → List (Row D) → List (RecordId × Row D) →
      Except Fault (RC × Nat × Table D U)
  | n, t, _, [] => .ok (.success, n, t)
  | n, t, done, (rid, r) :: rows => do
    let (rc, t) ← t.deleteRecord r.data rid
    if rc ≠ .success then
      let (_, n, t) ← insertRows p n t done
      return (rc, n, t)
    deleteOldRows p n t (r :: done) rows

/-- The second loop of `open`, up to the first failure; also the rows that are in, the last one
    first. -/
def insertNewRows (p : Placement D) :
    Nat → Table D U → List (RecordId × Row D) → List (Row D) →
      Except Fault (RC × Nat × List (RecordId × Row D) × Table D U)
  | n, t, done, [] => .ok (.success, n, done, t)
  | n, t, done, r :: rows => do
    let (rc, rid, t) ← t.insertRecord (p.place n) r
    match rc, rid with
    | .success, some rid => insertNewRows p (n + 1) t ((rid, r) :: done) rows
    | rc, _ => return (rc, n + 1, done, t)

/-- `UpdatePhysicalOperator::open` of the transaction `trxId`. -/
def openUpdate (t : Table D U) (trxId : Int) (stmt : UpdateStmt D) (p : Placement D) :
    Except Fault (RC × Table D U) := do
  let (rc, oldRecords) := scanRecords trxId t.file stmt.select (stmt.access.rids t.file)
  if rc ≠ .recordEof then return (rc, t)
  let (rc, n, t) ← deleteOldRows p 0 t [] oldRecords
  if rc ≠ .success then return (rc, t)
  let newRecords := oldRecords.map fun old => { old.2 with data := stmt.set old.2.data }
  let (rc, n, done, t) ← insertNewRows p n t [] newRecords
  if rc = .success then return (.success, t)
  let (rc2, t) ← deleteRows t done
  if rc2 ≠ .success then return (rc2, t)
  let (rc2, _, t) ← insertRows p n t (oldRecords.map Prod.snd)
  if rc2 ≠ .success then return (rc2, t)
  return (rc, t)

/-! ## What becomes of the rows -/

/-- The rows an UPDATE statement of the transaction takes up: none if it meets a conflict. -/
def UpdateStmt.selected (stmt : UpdateStmt D) (trxId : Int) (t : Table D U) :
    List (RecordId × Row D) :=
  match scanRecords trxId t.file stmt.select (stmt.access.rids t.file) with
  | (.recordEof, oldRecords) => oldRecords
  | _ => []

/-- What the scan gives is a row that is selected and can be written. -/
theorem scanRecords_mem {trxId : Int} {f : RecordFile D} {select : D → Bool} {rid : RecordId}
    {r : Row D} : ∀ {rids : List RecordId}, (rid, r) ∈ (scanRecords trxId f select rids).2 →
      rid ∈ rids ∧ f.row rid = some r ∧ Writable trxId r ∧ select r.data = true
  | [], h => nomatch h
  | rid' :: rids, h => by
    have hmono : (rid, r) ∈ (scanRecords trxId f select rids).2 →
        rid ∈ rid' :: rids ∧ f.row rid = some r ∧ Writable trxId r ∧ select r.data = true := by
      intro h'
      obtain ⟨hrid, hrest⟩ := scanRecords_mem h'
      exact ⟨List.mem_cons_of_mem rid' hrid, hrest⟩
    rw [scanRecords] at h
    split at h
    · exact hmono h
    · rename_i r' hr'
      split at h
      · exact hmono h
      · rename_i hw
        dsimp only at h
        split at h
        · rename_i hsel
          rcases List.mem_cons.mp h with heq | h
          · obtain ⟨rfl, rfl⟩ := Prod.mk.inj heq
            exact ⟨by simp, hr', hw, hsel⟩
          · exact hmono h
        · exact hmono h
      · cases h

/-- What is selected has been scanned. -/
theorem UpdateStmt.selected_mem {stmt : UpdateStmt D} {trxId : Int} {t : Table D U} {rid : RecordId}
    {r : Row D} (h : (rid, r) ∈ stmt.selected trxId t) :
    (rid, r) ∈ (scanRecords trxId t.file stmt.select (stmt.access.rids t.file)).2 := by
  unfold selected at h
  split at h
  · rename_i heq
    rw [heq]
    exact h
  · cases h

/-- `f'` differs from `f` where nothing was stored and at the places of the rows `old`; what is new
    has the hidden fields of one of these rows. -/
def Rewritten (old : List (RecordId × Row D)) (f f' : RecordFile D) : Prop :=
  ∀ rid, f'.row rid = f.row rid ∨
    ((f.row rid = none ∨ ∃ r, (rid, r) ∈ old) ∧
      (f'.row rid = none ∨ ∃ r, f'.row rid = some r ∧
        ∃ o ∈ old, r.beginXid = o.2.beginXid ∧ r.endXid = o.2.endXid))

section Rewritten

variable {old : List (RecordId × Row D)} {f : RecordFile D} {t t' : Table D U} {p : Placement D}
  {n n' : Nat} {rc : RC}

theorem Rewritten.refl : Rewritten old f f := fun _ => Or.inl rfl

/-- A place that is free now was free before or held an old row. -/
theorem Rewritten.free {f' : RecordFile D} {rid : RecordId} (h : Rewritten old f f')
    (hfree : f'.row rid = none) : f.row rid = none ∨ ∃ r, (rid, r) ∈ old := by
  rcases h rid with heq | ⟨hold, -⟩
  · exact Or.inl (heq ▸ hfree)
  · exact hold

/-- A row goes to a free place, with fields of an old one. -/
theorem Rewritten.bind {f' : RecordFile D} {rid : RecordId} {r : Row D} (h : Rewritten old f f')
    (hfree : f'.row rid = none)
    (hr : ∃ o ∈ old, r.beginXid = o.2.beginXid ∧ r.endXid = o.2.endXid) :
    Rewritten old f (f'.bind rid r) := by
  intro rid'
  by_cases heq : rid' = rid
  · subst heq
    exact Or.inr ⟨h.free hfree, Or.inr ⟨r, RecordFile.bind_row_self .., hr⟩⟩
  · rw [RecordFile.bind_row_of_ne _ _ heq]
    exact h rid'

/-- An old row leaves, or one that has just been put there. -/
theorem Rewritten.unbind {f' : RecordFile D} {rid : RecordId} (h : Rewritten old f f')
    (hold : f.row rid = none ∨ ∃ r, (rid, r) ∈ old) : Rewritten old f (f'.unbind rid) := by
  intro rid'
  by_cases heq : rid' = rid
  · subst heq
    exact Or.inr ⟨hold, Or.inl (RecordFile.unbind_row_self ..)⟩
  · rw [RecordFile.unbind_row_of_ne _ heq]
    exact h rid'

theorem Rewritten.insertRecord {r : Row D} {rid : Option RecordId} (h : Rewritten old f t.file)
    (hr : ∃ o ∈ old, r.beginXid = o.2.beginXid ∧ r.endXid = o.2.endXid)
    (hrun : t.insertRecord (p.place n) r = .ok (rc, rid, t')) : Rewritten old f t'.file := by
  cases Table.insertRecord_file hrun with
  | stored hfree hf =>
    rw [hf]
    exact h.bind hfree hr
  | rejected _ hf => rwa [hf]

theorem Rewritten.deleteRecord {record : D} {rid : RecordId} (h : Rewritten old f t.file)
    (hold : f.row rid = none ∨ ∃ r, (rid, r) ∈ old)
    (hrun : t.deleteRecord record rid = .ok (rc, t')) : Rewritten old f t'.file := by
  rcases Table.deleteRecord_file hrun with ⟨-, -, hf⟩ | ⟨-, -, hf⟩
  · rwa [hf]
  · rw [hf]
    exact h.unbind hold

/-- Row by row. -/
theorem Rewritten.insertRows {rows : List (Row D)} (h : Rewritten old f t.file)
    (hrows : ∀ r ∈ rows, ∃ o ∈ old, r.beginXid = o.2.beginXid ∧ r.endXid = o.2.endXid)
    (hrun : insertRows p n t rows = .ok (rc, n', t')) : Rewritten old f t'.file := by
  induction rows generalizing n t with
  | nil =>
    obtain ⟨-, h'⟩ := Prod.mk.inj (Except.ok.inj hrun)
    obtain ⟨-, rfl⟩ := Prod.mk.inj h'
    exact h
  | cons r rows ih =>
    rw [Trx.insertRows] at hrun
    obtain ⟨⟨rc', rid, t₁⟩, hins, hrun⟩ := ok_of_bind hrun
    have h₁ := h.insertRecord (hrows r (by simp)) hins
    dsimp only at hrun
    split at hrun
    · obtain ⟨-, h'⟩ := Prod.mk.inj (Except.ok.inj hrun)
      obtain ⟨-, rfl⟩ := Prod.mk.inj h'
      exact h₁
    · exact ih h₁ (fun r' hr' => hrows r' (List.mem_cons_of_mem r hr')) hrun

/-- Row by row. -/
theorem Rewritten.deleteRows {rows : List (RecordId × Row D)} (h : Rewritten old f t.file)
    (hrows : ∀ o ∈ rows, f.row o.1 = none ∨ ∃ r, (o.1, r) ∈ old)
    (hrun : deleteRows t rows = .ok (rc, t')) : Rewritten old f t'.file := by
  induction rows generalizing t with
  | nil =>
    obtain ⟨-, rfl⟩ := Prod.mk.inj (Except.ok.inj hrun)
    exact h
  | cons o rows ih =>
    rw [Trx.deleteRows] at hrun
    obtain ⟨⟨rc', t₁⟩, hdel, hrun⟩ := ok_of_bind hrun
    have h₁ := h.deleteRecord (hrows o (by simp)) hdel
    dsimp only at hrun
    split at hrun
    · obtain ⟨-, rfl⟩ := Prod.mk.inj (Except.ok.inj hrun)
      exact h₁
    · exact ih h₁ (fun o' ho' => hrows o' (List.mem_cons_of_mem o ho')) hrun

/-- The first loop, with what it takes back. -/
theorem Rewritten.deleteOldRows {rows : List (RecordId × Row D)} {done : List (Row D)}
    (h : Rewritten old f t.file) (hrows : ∀ o ∈ rows, o ∈ old)
    (hdone : ∀ r ∈ done, ∃ o ∈ old, r.beginXid = o.2.beginXid ∧ r.endXid = o.2.endXid)
    (hrun : deleteOldRows p n t done rows = .ok (rc, n', t')) : Rewritten old f t'.file := by
  induction rows generalizing t done with
  | nil =>
    obtain ⟨-, h'⟩ := Prod.mk.inj (Except.ok.inj hrun)
    obtain ⟨-, rfl⟩ := Prod.mk.inj h'
    exact h
  | cons o rows ih =>
    rw [Trx.deleteOldRows] at hrun
    obtain ⟨⟨rc', t₁⟩, hdel, hrun⟩ := ok_of_bind hrun
    have ho := hrows o (by simp)
    have h₁ := h.deleteRecord (Or.inr ⟨o.2, ho⟩) hdel
    dsimp only at hrun
    split at hrun
    · obtain ⟨⟨_, n₂, t₂⟩, hins, hrun⟩ := ok_of_bind hrun
      obtain ⟨-, h'⟩ := Prod.mk.inj (Except.ok.inj hrun)
      obtain ⟨-, rfl⟩ := Prod.mk.inj h'
      exact h₁.insertRows hdone hins
    · refine ih h₁ (fun o' ho' => hrows o' (List.mem_cons_of_mem o ho')) ?_ hrun
      intro r hr
      rcases List.mem_cons.mp hr with rfl | hr
      · exact ⟨o, ho, rfl, rfl⟩
      · exact hdone r hr

/-- The second loop. -/
theorem Rewritten.insertNewRows {rows : List (Row D)} {done done' : List (RecordId × Row D)}
    (h : Rewritten old f t.file)
    (hrows : ∀ r ∈ rows, ∃ o ∈ old, r.beginXid = o.2.beginXid ∧ r.endXid = o.2.endXid)
    (hdone : ∀ o ∈ done, f.row o.1 = none ∨ ∃ r, (o.1, r) ∈ old)
    (hrun : insertNewRows p n t done rows = .ok (rc, n', done', t')) :
    Rewritten old f t'.file ∧ ∀ o ∈ done', f.row o.1 = none ∨ ∃ r, (o.1, r) ∈ old := by
  induction rows generalizing n t done with
  | nil =>
    obtain ⟨-, h'⟩ := Prod.mk.inj (Except.ok.inj hrun)
    obtain ⟨-, h'⟩ := Prod.mk.inj h'
    obtain ⟨rfl, rfl⟩ := Prod.mk.inj h'
    exact ⟨h, hdone⟩
  | cons r rows ih =>
    rw [Trx.insertNewRows] at hrun
    obtain ⟨⟨rc', rid, t₁⟩, hins, hrun⟩ := ok_of_bind hrun
    have h₁ := h.insertRecord (hrows r (by simp)) hins
    dsimp only at hrun
    split at hrun
    · rename_i rid'
      refine ih h₁ (fun r' hr' => hrows r' (List.mem_cons_of_mem r hr')) ?_ hrun
      intro o ho
      rcases List.mem_cons.mp ho with rfl | ho
      · cases Table.insertRecord_file hins with
        | stored hfree _ => exact h.free hfree
        | rejected hrc _ => exact absurd rfl hrc
      · exact hdone o ho
    · obtain ⟨-, h'⟩ := Prod.mk.inj (Except.ok.inj hrun)
      obtain ⟨-, h'⟩ := Prod.mk.inj h'
      obtain ⟨rfl, rfl⟩ := Prod.mk.inj h'
      exact ⟨h₁, hdone⟩

/-- **UPDATE.**  Whatever happens on the way, the rows change only where old rows or nothing was
    stored, and new rows have the hidden fields of old ones. -/
theorem openUpdate_rewritten {trxId : Int} {stmt : UpdateStmt D}
    (hrun : openUpdate t trxId stmt p = .ok (rc, t')) :
    Rewritten (stmt.selected trxId t) t.file t'.file := by
  have hself : ∀ o ∈ stmt.selected trxId t,
      ∃ o' ∈ stmt.selected trxId t, o.2.beginXid = o'.2.beginXid ∧ o.2.endXid = o'.2.endXid :=
    fun o ho => ⟨o, ho, rfl, rfl⟩
  unfold openUpdate at hrun
  cases hscan : scanRecords trxId t.file stmt.select (stmt.access.rids t.file) with
  | mk rc₀ oldRecords =>
  rw [hscan] at hrun
  dsimp only at hrun
  -- the scan may stop before its end; then nothing has been written
  split at hrun
  · obtain ⟨-, rfl⟩ := Prod.mk.inj (Except.ok.inj hrun)
    exact .refl
  rename_i hrc
  obtain rfl := not_not.mp hrc
  obtain rfl : stmt.selected trxId t = oldRecords := by
    unfold UpdateStmt.selected
    rw [hscan]
  -- every loop of `open` only deletes what was selected or writes rows with the marks of it
  obtain ⟨⟨rc₁, n₁, t₁⟩, hold, hrun⟩ := ok_of_bind hrun
  have h₁ : Rewritten (stmt.selected trxId t) t.file t₁.file :=
    Rewritten.refl.deleteOldRows (fun _ ho => ho) (List.forall_mem_nil _) hold
  dsimp only at hrun
  split at hrun
  · obtain ⟨-, rfl⟩ := Prod.mk.inj (Except.ok.inj hrun)
    exact h₁
  -- the new rows take their marks over from the old ones
  obtain ⟨⟨rc₂, n₂, done, t₂⟩, hnew, hrun⟩ := ok_of_bind hrun
  obtain ⟨h₂, hdone⟩ := h₁.insertNewRows (fun r hr => by
    obtain ⟨o, ho, rfl⟩ := List.mem_map.mp hr
    exact ⟨o, ho, rfl, rfl⟩) (List.forall_mem_nil _) hnew
  dsimp only at hrun
  split at hrun
  · obtain ⟨-, rfl⟩ := Prod.mk.inj (Except.ok.inj hrun)
    exact h₂
  -- the two loops that take the statement back
  obtain ⟨⟨rc₃, t₃⟩, hdel, hrun⟩ := ok_of_bind hrun
  have h₃ := h₂.deleteRows hdone hdel
  dsimp only at hrun
  split at hrun
  · obtain ⟨-, rfl⟩ := Prod.mk.inj (Except.ok.inj hrun)
    exact h₃
  obtain ⟨⟨rc₄, n₄, t₄⟩, hins, hrun⟩ := ok_of_bind hrun
  have h₄ := h₃.insertRows (fun r hr => by
    obtain ⟨o, ho, rfl⟩ := List.mem_map.mp hr
    exact hself o ho) hins
  dsimp only at hrun
  split at hrun
  · obtain ⟨-, rfl⟩ := Prod.mk.inj (Except.ok.inj hrun)
    exact h₄
  · obtain ⟨-, rfl⟩ := Prod.mk.inj (Except.ok.inj hrun)
    exact h₄

end Rewritten

/-! ## Properties of the table -/

section Preserves

variable {P : Table D U → Prop} {p : Placement D}
  (hins : ∀ t n r rc rid t', P t → t.insertRecord (p.place n) r = .ok (rc, rid, t') → P t')
  (hdel : ∀ t record rid rc t', P t → t.deleteRecord record rid = .ok (rc, t') → P t')

include hins in
/-- What each insertion preserves the loop preserves. -/
theorem insertRows_preserves {rows : List (Row D)} {t t' : Table D U} {n n' : Nat} {rc : RC} (h : P t)
    (hrun : insertRows p n t rows = .ok (rc, n', t')) : P t' := by
  induction rows generalizing n t with
  | nil =>
    obtain ⟨-, h'⟩ := Prod.mk.inj (Except.ok.inj hrun)
    obtain ⟨-, rfl⟩ := Prod.mk.inj h'
    exact h
  | cons r rows ih =>
    rw [insertRows] at hrun
    obtain ⟨⟨rc', rid, t₁⟩, hrow, hrun⟩ := ok_of_bind hrun
    have h₁ := hins t n r rc' rid t₁ h hrow
    dsimp only at hrun
    split at hrun
    · obtain ⟨-, h'⟩ := Prod.mk.inj (Except.ok.inj hrun)
      obtain ⟨-, rfl⟩ := Prod.mk.inj h'
      exact h₁
    · exact ih h₁ hrun

include hdel in
/-- And what each deletion preserves. -/
theorem deleteRows_preserves {rows : List (RecordId × Row D)} {t t' : Table D U} {rc : RC} (h : P t)
    (hrun : deleteRows t rows = .ok (rc, t')) : P t' := by
  induction rows generalizing t with
  | nil =>
    obtain ⟨-, rfl⟩ := Prod.mk.inj (Except.ok.inj hrun)
    exact h
  | cons o rows ih =>
    rw [deleteRows] at hrun
    obtain ⟨⟨rc', t₁⟩, hrow, hrun⟩ := ok_of_bind hrun
    have h₁ := hdel t o.2.data o.1 rc' t₁ h hrow
    dsimp only at hrun
    split at hrun
    · obtain ⟨-, rfl⟩ := Prod.mk.inj (Except.ok.inj hrun)
      exact h₁
    · exact ih h₁ hrun

include hins hdel

/-- The first loop of UPDATE has both. -/
theorem deleteOldRows_preserves {rows : List (RecordId × Row D)} {done : List (Row D)}
    {t t' : Table D U} {n n' : Nat} {rc : RC} (h : P t)
    (hrun : deleteOldRows p n t done rows = .ok (rc, n', t')) : P t' := by
  induction rows generalizing t done with
  | nil =>
    obtain ⟨-, h'⟩ := Prod.mk.inj (Except.ok.inj hrun)
    obtain ⟨-, rfl⟩ := Prod.mk.inj h'
    exact h
  | cons o rows ih =>
    rw [deleteOldRows] at hrun
    obtain ⟨⟨rc', t₁⟩, hrow, hrun⟩ := ok_of_bind hrun
    have h₁ := hdel t o.2.data o.1 rc' t₁ h hrow
    dsimp only at hrun
    split at hrun
    · obtain ⟨⟨_, n₂, t₂⟩, hback, hrun⟩ := ok_of_bind hrun
      obtain ⟨-, h'⟩ := Prod.mk.inj (Except.ok.inj hrun)
      obtain ⟨-, rfl⟩ := Prod.mk.inj h'
      exact insertRows_preserves hins h₁ hback
    · exact ih h₁ hrun

omit hdel in
/-- So has the second one. -/
theorem insertNewRows_preserves {rows : List (Row D)} {done done' : List (RecordId × Row D)}
    {t t' : Table D U} {n n' : Nat} {rc : RC} (h : P t)
    (hrun : insertNewRows p n t done rows = .ok (rc, n', done', t')) : P t' := by
  induction rows generalizing n t done with
  | nil =>
    obtain ⟨-, h'⟩ := Prod.mk.inj (Except.ok.inj hrun)
    obtain ⟨-, h'⟩ := Prod.mk.inj h'
    obtain ⟨-, rfl⟩ := Prod.mk.inj h'
    exact h
  | cons r rows ih =>
    rw [insertNewRows] at hrun
    obtain ⟨⟨rc', rid, t₁⟩, hrow, hrun⟩ := ok_of_bind hrun
    have h₁ := hins t n r rc' rid t₁ h hrow
    dsimp only at hrun
    split at hrun
    · exact ih h₁ hrun
    · obtain ⟨-, h'⟩ := Prod.mk.inj (Except.ok.inj hrun)
      obtain ⟨-, h'⟩ := Prod.mk.inj h'
      obtain ⟨-, rfl⟩ := Prod.mk.inj h'
      exact h₁

/-- What insertions and deletions keep, an UPDATE keeps. -/
theorem openUpdate_preserves {t t' : Table D U} {trxId : Int} {stmt : UpdateStmt D} {rc : RC} (h : P t)
    (hrun : openUpdate t trxId stmt p = .ok (rc, t')) : P t' := by
  unfold openUpdate at hrun
  dsimp only at hrun
  split at hrun
  · obtain ⟨-, rfl⟩ := Prod.mk.inj (Except.ok.inj hrun)
    exact h
  obtain ⟨⟨rc₁, n₁, t₁⟩, hold, hrun⟩ := ok_of_bind hrun
  have h₁ := deleteOldRows_preserves hins hdel h hold
  dsimp only at hrun
  split at hrun
  · obtain ⟨-, rfl⟩ := Prod.mk.inj (Except.ok.inj hrun)
    exact h₁
  obtain ⟨⟨rc₂, n₂, done, t₂⟩, hnew, hrun⟩ := ok_of_bind hrun
  have h₂ := insertNewRows_preserves hins h₁ hnew
  dsimp only at hrun
  split at hrun
  · obtain ⟨-, rfl⟩ := Prod.mk.inj (Except.ok.inj hrun)
    exact h₂
  obtain ⟨⟨rc₃, t₃⟩, hdel₃, hrun⟩ := ok_of_bind hrun
  have h₃ := deleteRows_preserves hdel h₂ hdel₃
  dsimp only at hrun
  split at hrun
  · obtain ⟨-, rfl⟩ := Prod.mk.inj (Except.ok.inj hrun)
    exact h₃
  obtain ⟨⟨rc₄, n₄, t₄⟩, hback, hrun⟩ := ok_of_bind hrun
  have h₄ := insertRows_preserves hins h₃ hback
  dsimp only at hrun
  split at hrun
  · obtain ⟨-, rfl⟩ := Prod.mk.inj (Except.ok.inj hrun)
    exact h₄
  · obtain ⟨-, rfl⟩ := Prod.mk.inj (Except.ok.inj hrun)
    exact h₄

end Preserves

end Miniob.Trx
