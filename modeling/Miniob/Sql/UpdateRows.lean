/-
  UPDATE changes the rows it selects, or nothing.

  The rows of a table are records, and the new values are copied to their columns.  The operator removes
  the old rows and inserts the new ones; when an insertion fails it puts the old rows back.

  1. **The scan** — the rows are changed only if all rows that the child operator reads can be written.
  2. **The crux** — by `Trx.openUpdate_allOrNothing_iff` the rest is a matter of the first index: if it
     refuses a new row, it loses an entry.
-/
import Miniob.Record.Assignment
import Miniob.Sql.StatementAtomic
import Miniob.Trx.UpdateExact

namespace Miniob.Sql

open Miniob.Common Miniob.Db Miniob.Storage Miniob.Trx RowStorage

variable {U : Type} {m : TableMeta}

/-! ## The statement -/

/-- An UPDATE of a table whose rows are records. -/
structure UpdateColumns (m : TableMeta) where
  tid : TableId
  childOpen : RC
  access : Access (Record m)
  predicate : Predicate (Record m)
  /-- The columns of the `SET` clause and the expressions behind them. -/
  clauses : List ({f : FieldMeta // f ∈ m.fields} × NewValue)
  unspecified : Expr.Cast.Unspecified
  placement : Placement (Record m)

/-- `values_`. -/
def UpdateColumns.values (stmt : UpdateColumns m) : Except RC (List (Assignment m)) :=
  convertExpressionToValues stmt.unspecified stmt.clauses

/-- The values, as they are copied into every row. -/
def setClause (as : List (Assignment m)) : SetClause (Record m) := ⟨assign as, assign_assign as⟩

/-- The operator. -/
def UpdateColumns.query (stmt : UpdateColumns m) : UpdateQuery (Record m) where
  tid := stmt.tid
  childOpen := stmt.childOpen
  access := stmt.access
  predicate := stmt.predicate
  values := stmt.values.map setClause
  placement := stmt.placement

/-- The operator after the conversion. -/
def UpdateColumns.update (stmt : UpdateColumns m) (as : List (Assignment m)) : UpdateStmt (Record m) where
  access := stmt.access
  select := fun d => stmt.predicate.eval d = .ok true
  set := setClause as

/-! ## What it should do -/

/-- The new row has the values of the `SET` clause and is otherwise the old one. -/
structure Assigned (as : List (Assignment m)) (old new : Row (Record m)) : Prop where
  beginXid : new.beginXid = old.beginXid
  endXid : new.endXid = old.endXid
  data : ExactlyAssigned as old.data new.data

/-- Exactly the selected rows have changed. -/
def UpdateColumns.Changed (stmt : UpdateColumns m) (T : Int) (f f' : RecordFile (Record m)) : Prop :=
  ∃ mid old new, Added mid f old ∧ Added mid f' new ∧
    (∀ rid, rid ∈ old.map Prod.fst ↔ selects stmt.access stmt.predicate T f rid = true) ∧
    List.Forall₂ (fun o n => ∃ as, stmt.values = .ok as ∧ Assigned as o.2 n.2) old new

/-- The rows are those of before, perhaps at other places. -/
def SameRows {D : Type} (f f' : RecordFile D) : Prop :=
  ∃ mid old new, Added mid f old ∧ Added mid f' new ∧ (new.map Prod.snd).Perm (old.map Prod.snd)

/-- On an error the table has the rows of before and otherwise the selected rows have changed; the indexes
    are those of before and list the rows, and the other tables are as they were. -/
def UpdateColumns.AllOrNothing (db : Database (Record m) U) (T : Int) (stmt : UpdateColumns m) : Prop :=
  ∃ rc db', openUpdateQuery db T stmt.query = .ok (rc, db') ∧
    (∀ tid ≠ stmt.tid, db'.tables tid = db.tables tid) ∧
    ∃ t t', db.tables stmt.tid = some t ∧ db'.tables stmt.tid = some t' ∧ IndexesKept t t' ∧
      if rc = .success then stmt.Changed T t.file t'.file else SameRows t.file t'.file

/-! ## When it does -/

/-- The child operator comes to its end: it can write all rows that it sees, and the predicates can be
    evaluated on them. -/
def UpdateColumns.Scans (stmt : UpdateColumns m) (T : Int) (f : RecordFile (Record m)) : Prop :=
  ∀ rid ∈ stmt.access.rids f, ∀ r, f.row rid = some r → Visible T r →
    Writable T r ∧ ∃ b, stmt.predicate.eval r.data = .ok b

/-- If the statement comes to the insertions, the first index refuses none of them. -/
def UpdateColumns.SparesFirstIndex (stmt : UpdateColumns m) (T : Int) (t : Table (Record m) U) : Prop :=
  stmt.childOpen = .success → stmt.Scans T t.file → ∀ as, stmt.values = .ok as →
    FirstIndexSpared t.indexes ((stmt.update as).unselected T t)
      (((stmt.update as).selected T t).map fun old => assign as old.2.data)

/-! ## The scan -/

section Scan

variable {D : Type} {T : Int} {f : RecordFile D} {predicate : Predicate D}

/-- A row that is locked is visible. -/
theorem visible_of_locked {r : Row D} (h : visitRecord T .readWrite r = .lockedConcurrencyConflict) :
    Visible T r := by
  unfold visitRecord at h
  unfold Visible visitRecord
  split at h
  · split at h <;> cases h
  · rename_i hboth
    rw [if_neg hboth]
    split at h
    · split at h <;> cases h
    · rename_i hbegin
      rw [if_neg hbegin]
      split at h
      · rename_i hend
        rw [if_pos hend]
        dsimp only at h ⊢
        split at h
        · rename_i hne
          exact if_pos hne
        · cases h
      · cases h

/-- A scan comes to its end if it can write all rows that it sees. -/
theorem scan_eof_iff {rids : List RecordId} : (scan T f predicate rids).1 = .recordEof ↔
    ∀ rid ∈ rids, ∀ r, f.row rid = some r → Visible T r →
      Writable T r ∧ ∃ b, predicate.eval r.data = .ok b := by
  induction rids with
  | nil => exact iff_of_true rfl (List.forall_mem_nil _)
  | cons s rids ih =>
    rw [scan, List.forall_mem_cons]
    cases hr : f.row s with
    | none =>
      dsimp only
      rw [ih]
      refine ⟨fun h => ⟨fun r h' => ?_, h⟩, And.right⟩
      cases h'
    | some r =>
      dsimp only
      rcases visitRecord_readWrite T r with hvisit | ⟨hvisit, hnot⟩ | hvisit
      · rw [hvisit]
        dsimp only
        cases heval : predicate.eval r.data with
        | error rc =>
          refine iff_of_false (predicate.failed _ _ heval).2 fun h => ?_
          obtain ⟨-, b, hb⟩ := h.1 r rfl (visible_of_writable hvisit)
          cases heval.symm.trans hb
        | ok b =>
          have hread : ∀ r', some r = some r' → Visible T r' →
              Writable T r' ∧ ∃ b, predicate.eval r'.data = .ok b := by
            rintro r' ⟨⟩ -
            exact ⟨hvisit, b, heval⟩
          cases b with
          | false => exact ih.trans ⟨fun h => ⟨hread, h⟩, And.right⟩
          | true => exact ih.trans ⟨fun h => ⟨hread, h⟩, And.right⟩
      · rw [hvisit]
        refine ih.trans ⟨fun h => ⟨?_, h⟩, And.right⟩
        rintro r' ⟨⟩ hv
        exact absurd hv hnot
      · rw [hvisit]
        refine iff_of_false (fun hrc => RC.noConfusion hrc) fun h => ?_
        obtain ⟨hw, -⟩ := h.1 r rfl (visible_of_locked hvisit)
        cases hvisit.symm.trans hw

end Scan

/-! ## The operator -/

section Operator

variable {t t' : Table (Record m) U} {T : Int} {stmt : UpdateColumns m} {as : List (Assignment m)}

theorem sameRows_refl {D : Type} (f : RecordFile D) : SameRows f f :=
  ⟨f, [], [], .refl f, .refl f, .nil⟩

theorem added_perm {D : Type} {f f' : RecordFile D} {rows rows' : List (RecordId × Row D)}
    (h : Added f f' rows) (hp : rows.Perm rows') : Added f f' rows' where
  nodup := (hp.map Prod.fst).nodup_iff.mp h.nodup
  free o ho := h.free o (hp.mem_iff.mpr ho)
  stored o ho := h.stored o (hp.mem_iff.mpr ho)
  other rid hrid := h.other rid fun hmem => hrid ((hp.map Prod.fst).mem_iff.mp hmem)

theorem sameRows_of_replaced {D : Type} {f f' : RecordFile D} {old : List (RecordId × Row D)}
    (h : Replaced f f' old id) : SameRows f f' := by
  obtain ⟨mid, new, hold, hnew, hperm⟩ := h
  exact ⟨mid, old, new, hold, hnew, hperm⟩

/-- The rows that the scan returns are those that the statement selects. -/
theorem mem_selected (hscan : stmt.Scans T t.file) (rid : RecordId) :
    rid ∈ ((stmt.update as).selected T t).map Prod.fst ↔
      selects stmt.access stmt.predicate T t.file rid = true :=
  UpdateQuery.mem_selected stmt.query (setClause as) (scan_eof_iff.mpr hscan) rid

/-- The selected rows are replaced, in the assigned fields. -/
theorem changed_of_replaced (hscan : stmt.Scans T t.file) (hvalues : stmt.values = .ok as)
    {f' : RecordFile (Record m)}
    (h : Replaced t.file f' ((stmt.update as).selected T t) (stmt.update as).set) :
    stmt.Changed T t.file f' := by
  obtain ⟨mid, new, hold, hnew, hperm⟩ := h
  have hsnd : List.Forall₂ (fun r (n : RecordId × Row (Record m)) => n.2 = r) (new.map Prod.snd) new := by
    rw [List.forall₂_map_left_iff]
    exact List.forall₂_same.mpr fun _ _ => rfl
  obtain ⟨new', hpairs, hperm'⟩ := List.perm_comp_forall₂ hperm.symm hsnd
  refine ⟨mid, _, new', hold, added_perm hnew hperm'.symm, mem_selected hscan, ?_⟩
  rw [List.forall₂_map_left_iff] at hpairs
  refine hpairs.imp fun o n hn => ⟨as, hvalues, ?_⟩
  rw [hn]
  exact ⟨rfl, rfl, exactlyAssigned_assign as o.2.data⟩

/-- **UPDATE** of a table, once the rows are scanned. -/
theorem allOrNothing_iff {db : Database (Record m) U} (ht : db.tables stmt.tid = some t) (hi : t.Indexed)
    {capacity : Nat} (hp : HoldsRows stmt.placement capacity) (hfits : t.file.rids.length ≤ capacity)
    (hchild : stmt.childOpen = .success) (hvalues : stmt.values = .ok as) (hscan : stmt.Scans T t.file) :
    stmt.AllOrNothing db T ↔ FirstIndexSpared t.indexes ((stmt.update as).unselected T t)
      (((stmt.update as).selected T t).map fun old => assign as old.2.data) := by
  have hiff := @openUpdate_allOrNothing_iff (Record m) U t stmt.placement capacity T (stmt.update as) hi hp hfits
  have heof := scan_eof_iff.mpr hscan
  obtain ⟨heof', -, -⟩ := scan_eof heof
  -- past the checks the statement is the run of the operator on the table
  have hquery : openUpdateQuery db T stmt.query = (openUpdate t T (stmt.update as) stmt.placement >>=
      fun out => pure (out.1, db.setTable stmt.tid out.2)) := by
    unfold openUpdateQuery UpdateColumns.query
    dsimp only
    rw [if_neg (by simpa using hchild), bind_ok _ (Database.findTable_eq ht), hvalues]
    simp only [Except.map]
    rw [if_neg (by simpa using heof)]
    rfl
  refine Iff.trans ⟨?_, ?_⟩ hiff
  -- from the statement to the table, and back
  · rintro ⟨rc, db', hrun, -, t₀, t', ht₀, ht', hkept, -⟩
    cases ht.symm.trans ht₀
    rw [hquery] at hrun
    obtain ⟨⟨rc₁, t₁⟩, hupdate, hrun⟩ := ok_of_bind hrun
    cases hrun
    have ht₁ : (db.setTable stmt.tid t₁).tables stmt.tid = some t₁ := if_pos rfl
    obtain rfl := Option.some.inj (ht₁.symm.trans ht')
    obtain ⟨hdone, hundone⟩ := openUpdate_allOrNothing hupdate
    refine ⟨rc₁, t₁, hupdate, hkept, ?_⟩
    split
    · rename_i hrc
      exact hdone hrc heof'
    · rename_i hrc
      exact hundone ⟨capacity, hp, hfits⟩ hi hrc
  · rintro ⟨rc, t', hupdate, hkept, hrows⟩
    refine ⟨rc, db.setTable stmt.tid t', ?_, fun tid hne => if_neg hne, t, t', ht, if_pos rfl, hkept, ?_⟩
    · rw [hquery, bind_ok _ hupdate]
      rfl
    · split at hrows
      · rename_i hrc
        rw [if_pos hrc]
        exact changed_of_replaced hscan hvalues hrows
      · rename_i hrc
        rw [if_neg hrc]
        obtain ⟨old, hold⟩ := hrows
        exact sameRows_of_replaced hold

end Operator

/-! ## The claim -/

theorem sparesFirstIndex_of_not {t : Table (Record m) U} {T : Int} {stmt : UpdateColumns m}
    (h : stmt.childOpen = .success → stmt.Scans T t.file → ∃ rc, stmt.values = .error rc) :
    stmt.SparesFirstIndex T t := by
  intro hchild hscan as has
  obtain ⟨rc, hrc⟩ := h hchild hscan
  cases has.symm.trans hrc

/-- The statement ends before it has come to the rows. -/
theorem allOrNothing_of_unchanged {db : Database (Record m) U} {t : Table (Record m) U} {T : Int}
    {stmt : UpdateColumns m} {rc : RC} (ht : db.tables stmt.tid = some t) (hi : t.Indexed)
    (hrun : openUpdateQuery db T stmt.query = .ok (rc, db)) (hrc : rc = .success → stmt.Changed T t.file t.file) :
    stmt.AllOrNothing db T := by
  refine ⟨rc, db, hrun, fun _ _ => rfl, t, t, ht, ht, ⟨?_, hi⟩, ?_⟩
  · exact List.forall₂_same.mpr fun i _ => TableIndex.SameDef.refl i
  · split
    · rename_i hsucc
      exact hrc hsucc
    · exact sameRows_refl t.file

/-- `CREATE TABLE t(k INT NOT NULL)`. -/
def keyTable : TableMeta := ⟨8, [⟨.ints, 4, false, AttrInfo.ints_length_pos⟩]⟩

def keyField : {f : FieldMeta // f ∈ keyTable.fields} :=
  ⟨⟨.ints, 8, 4, false⟩, by simp [keyTable, TableMeta.fields, initFields]⟩

/-- `CREATE UNIQUE INDEX i ON t(k)`. -/
def keyIndex : IndexMeta (Record keyTable) Int where
  unique := true
  keyOf d := (int32OfBytes (columnOf d.val keyField.val)).toInt
  attrCmp := compare
  zeroKey := ⟨0, .min⟩
  attrLength := 4
  internalMaxSize := 8
  leafMaxSize := 5
  leaf := by decide
  internal := by decide

/-- A committed row. -/
def keyRow (k : UInt8) : Row (Record keyTable) := ⟨1, maxTrxId, List.replicate 8 0 ++ [k, 0, 0, 0], rfl⟩

/-- The rows 1 and 2. -/
def twoRows : RecordFile (Record keyTable) :=
  (RecordFile.empty.bind ⟨⟨1, 0⟩, range_one, range_zero⟩ (keyRow 1)).bind ⟨⟨1, 1⟩, range_one, range_one⟩
    (keyRow 2)

/-- The first slots hold three rows. -/
theorem firstSlots_holdsRows {D : Type} : HoldsRows (firstSlots (D := D)) 3 := by
  intro n f rc hfull
  unfold firstSlots at hfull
  dsimp only at hfull
  split at hfull
  · cases hfull
  · rename_i hfind
    rw [List.find?_eq_none] at hfind
    have hall : ∀ rid ∈ ([⟨⟨1, 0⟩, range_one, range_zero⟩, ⟨⟨1, 1⟩, range_one, range_one⟩,
        ⟨⟨1, 2⟩, range_one, range_two⟩] : List RecordId), rid ∈ f.rids := by
      intro rid hrid
      have hstored := hfind rid hrid
      rw [f.mem_rids]
      cases hr : f.row rid with
      | none =>
        rw [hr] at hstored
        exact absurd rfl hstored
      | some r => rfl
    exact (List.Nodup.subperm (by decide) hall).length_le

/-- The table has the index, which lists the rows. -/
def HasKeyIndex (t : Table (Record keyTable) Int) : Prop :=
  t.Indexed ∧ ∃ i, t.indexes = [i] ∧ TableIndex.SameDef keyIndex.create i

/-- A row is inserted into the table with the index. -/
theorem HasKeyIndex.insert {t : Table (Record keyTable) Int} {rid : RecordId} {r : Row (Record keyTable)}
    (h : HasKeyIndex t) (hrid : (firstSlots (D := Record keyTable)).place 0 t.file = .ok rid)
    (hnew : ∀ d, Stores t.file d → compare (keyIndex.keyOf d) (keyIndex.keyOf r.data) ≠ .eq) :
    ∃ t', HasKeyIndex t' ∧ t'.file = t.file.bind rid r := by
  obtain ⟨hindexed, i, hi, hdef⟩ := h
  have hnot : ∀ j ∈ t.indexes, ¬ j.Rejects r.data rid := by
    intro j hj hrej
    rw [rejects_iff_clash (hindexed j hj) (firstSlots.free 0 _ _ hrid)] at hrej
    rw [hi, List.mem_singleton] at hj
    subst hj
    obtain ⟨-, d, hd, heq⟩ := (clash_iff hdef).mp hrej
    exact hnew d hd heq
  obtain ⟨t', hins⟩ := insertRecord_of_not_rejects hindexed hrid hnot
  obtain ⟨-, hfile, h'⟩ := insertRecord_success hindexed hrid hins
  have hkeeps := hindexed.sound.insertRecord_keeps hins
  rw [hi] at hkeeps
  obtain ⟨file', indexes'⟩ := t'
  cases hkeeps with
  | cons hk hrest =>
    cases hrest
    exact ⟨_, ⟨h', _, rfl, hdef.trans hk.1⟩, hfile⟩

/-- A table with these rows and the index. -/
theorem exists_twoRows : ∃ t : Table (Record keyTable) Int, HasKeyIndex t ∧ t.file = twoRows := by
  have h₀ : HasKeyIndex ⟨.empty, [keyIndex.create]⟩ := by
    refine ⟨fun i hi => ?_, _, rfl, .refl _⟩
    obtain rfl := List.mem_singleton.mp hi
    refine ⟨[], keyIndex.create_holds Int.instTransOrd, .nil, fun e => iff_of_false (by simp) ?_⟩
    rintro ⟨rid, r, hr, -⟩
    cases hr
  have hnone : ∀ d, Stores (RecordFile.empty : RecordFile (Record keyTable)) d →
      compare (keyIndex.keyOf d) (keyIndex.keyOf (keyRow 1).data) ≠ .eq := by
    rintro d ⟨rid, r, hr, -⟩
    cases hr
  obtain ⟨t₁, h₁, hfile₁⟩ := @HasKeyIndex.insert _ ⟨⟨1, 0⟩, range_one, range_zero⟩ (keyRow 1) h₀ rfl hnone
  have hone : ∀ d, Stores t₁.file d →
      compare (keyIndex.keyOf d) (keyIndex.keyOf (keyRow 2).data) ≠ .eq := by
    rw [hfile₁, stores_bind rfl]
    rintro d (rfl | ⟨rid, r, hr, -⟩)
    · decide
    · cases hr
  obtain ⟨t₂, h₂, hfile₂⟩ := @HasKeyIndex.insert _ ⟨⟨1, 1⟩, range_one, range_one⟩ (keyRow 2) h₁
    (by rw [hfile₁]; rfl) hone
  refine ⟨t₂, h₂, ?_⟩
  rw [hfile₂, hfile₁]
  rfl

/-- `UPDATE t SET k = v WHERE k = 1`. -/
def setKey (v : Int32) : UpdateColumns keyTable where
  tid := 0
  childOpen := .success
  access := .tableScan
  predicate := ⟨fun d => .ok (columnOf d.val keyField.val = [1, 0, 0, 0]), fun _ _ h => nomatch h⟩
  clauses := [(keyField, .value (.ints v))]
  unspecified := ⟨fun _ => 0, fun _ => 0, fun _ _ => 0, fun _ => 0⟩
  placement := firstSlots

end Miniob.Sql
