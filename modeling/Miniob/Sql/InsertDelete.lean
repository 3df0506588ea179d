/-
  INSERT and DELETE as a later transaction sees them.

  INSERT takes its rows back when the table refuses one, but not when `make_record` fails.  DELETE
  stops at the first row that it cannot mark and leaves the marks before it; and it takes a scan that
  has stopped with an error for one that has come to its end.
-/
import Miniob.Sql.Indexes
import Miniob.Sql.Opened

namespace Miniob.Sql

open Miniob.Common Miniob.Db Miniob.Storage Miniob.Trx TableIndex

variable {D U : Type}

/-! ## What a later transaction reads -/

section Read

variable {T c reader : Int} {r : Row D}

/-- What is read is a row that is visible. -/
theorem read_eq_some {d : D} : read reader r = some d ↔ Visible reader r ∧ r.data = d := by
  unfold read
  split
  · rename_i hv
    exact ⟨fun h => ⟨hv, Option.some.inj h⟩, fun h => congrArg some h.2⟩
  · rename_i hv
    refine ⟨fun h => ?_, fun h => absurd h.1 hv⟩
    cases h

theorem read_eq_none : read reader r = none ↔ ¬ Visible reader r := by
  unfold read
  split <;> simp_all

theorem read_inserted (hc : 0 < c) (hlt : c < reader) (hmax : reader < maxTrxId) (d : D) :
    read reader ⟨c, maxTrxId, d⟩ = some d := by
  refine read_eq_some.mpr ⟨visible_iff.mpr (Or.inl ?_), rfl⟩
  dsimp only
  omega

theorem read_takenBack (hc : 0 < c) (hlt : c < reader) (d : D) : read reader ⟨c, c, d⟩ = none := by
  rw [read_eq_none, visible_iff]
  dsimp only
  omega

/-- A row that the transaction can delete is gone afterwards, unless LOAD DATA has brought it. -/
theorem read_deleted (hT : 0 < T) (hTc : T < c) (hlt : c < reader) (hw : Writable T r) :
    read reader { r with endXid := c } = if r.beginXid = 0 then some r.data else none := by
  rw [writable_iff] at hw
  by_cases hzero : r.beginXid = 0
  · rw [if_pos hzero]
    refine read_eq_some.mpr ⟨visible_iff.mpr ?_, rfl⟩
    dsimp only
    omega
  · rw [if_neg hzero, read_eq_none, visible_iff]
    dsimp only
    omega

theorem read_of_begin_zero (hw : Writable T r) (hzero : r.beginXid = 0) :
    read reader r = some r.data := by
  rw [writable_iff] at hw
  refine read_eq_some.mpr ⟨visible_iff.mpr ?_, rfl⟩
  omega

end Read

/-! ## INSERT -/

/-- The data of the rows, by their places. -/
def ownRows : List (RecordId × Row D) → RecordId → Option D
  | [], _ => none
  | o :: rows, rid => if rid = o.1 then some o.2.data else ownRows rows rid

/-- The statement has nothing at places it has not written. -/
theorem ownRows_eq_none {rows : List (RecordId × Row D)} {rid : RecordId} :
    ownRows rows rid = none ↔ rid ∉ rows.map Prod.fst := by
  induction rows with
  | nil => exact iff_of_true rfl List.not_mem_nil
  | cons o rows ih =>
    rw [ownRows, List.map_cons, List.mem_cons, not_or, ← ih]
    split
    · rename_i heq
      exact iff_of_false nofun fun h => h.1 heq
    · rename_i hne
      exact (and_iff_right hne).symm

/-- What it has is one of its rows. -/
theorem ownRows_mem {rows : List (RecordId × Row D)} {rid : RecordId} {d : D} (h : ownRows rows rid = some d) :
    ∃ o ∈ rows, o.1 = rid ∧ o.2.data = d := by
  induction rows with
  | nil => cases h
  | cons o rows ih =>
    rw [ownRows] at h
    split at h
    · rename_i heq
      exact ⟨o, List.mem_cons_self, heq.symm, Option.some.inj h⟩
    · obtain ⟨o', ho', heq, hd⟩ := ih h
      exact ⟨o', List.mem_cons_of_mem o ho', heq, hd⟩

/-- `t` is `t₀` with the rows in addition, as the transaction has marked them. -/
structure Inserting (T : Int) (tid : TableId) (t₀ t : Table D U) (ops : List Operation)
    (rows : List (RecordId × Row D)) : Prop where
  /-- The file has these rows more. -/
  added : Added t₀.file t.file rows
  /-- They are marked as inserted by the transaction. -/
  fields : ∀ o ∈ rows, o.2.beginXid = -T ∧ o.2.endXid = maxTrxId
  /-- The transaction lists one insert for each of them. -/
  ops : ∀ type l, ⟨type, l⟩ ∈ ops ↔ type = .insert ∧ l.1 = tid ∧ l.2 ∈ rows.map Prod.fst
  /-- So has every index its entries. -/
  indexes : List.Forall₂ (Plus (ownRows rows)) t₀.indexes t.indexes

/-- The place is as it was, or it holds a row of the statement that is to be taken back or has been
    taken back. -/
def TakingBack (T : Int) (tid : TableId) (f₀ f : RecordFile D) (ops : List Operation)
    (records : List RecordId) (rid : RecordId) : Prop :=
  (rid ∉ records ∧ f.row rid = f₀.row rid ∧ ∀ op ∈ ops, op.loc ≠ (tid, rid)) ∨
  (f₀.row rid = none ∧ (∃ r, f.row rid = some r ∧ r.beginXid = -T) ∧
    ⟨.insert, tid, rid⟩ ∈ ops ∧ (rid ∈ records ∨ ⟨.delete, tid, rid⟩ ∈ ops))

/-- The table takes the records, one after the other, and is `t₁` then. -/
def InsertStmt.Stores (T : Int) (stmt : InsertStmt D) : Nat → Table D U → List D → Table D U → Prop
  | _, t, [], t₁ => t₁ = t
  | n, t, d :: ds, t₁ => ∃ rid t',
      t.insertRecord ((stmt.placement n).place 0) ⟨-T, maxTrxId, d⟩ = .ok (.success, rid, t') ∧
      Stores T stmt (n + 1) t' ds t₁

section Stores

variable {T : Int} {stmt : InsertStmt D}

/-- The rows go in one part after the other. -/
theorem InsertStmt.Stores.append {ds' : List D} {t₂ : Table D U} : ∀ {ds : List D} {n : Nat} {t : Table D U},
    stmt.Stores T n t (ds ++ ds') t₂ → ∃ t₁, stmt.Stores T n t ds t₁ ∧ stmt.Stores T (n + ds.length) t₁ ds' t₂ := by
  intro ds
  induction ds with
  | nil => exact fun h => ⟨_, rfl, h⟩
  | cons d ds ih =>
    rintro n t ⟨rid, t', hins, hrest⟩
    obtain ⟨t₁, hstores, hrest⟩ := ih hrest
    refine ⟨t₁, ⟨rid, t', hins, hstores⟩, ?_⟩
    rwa [List.length_cons, ← Nat.add_assoc, Nat.add_right_comm]

/-- And leave one table. -/
theorem InsertStmt.Stores.unique {t₁ t₂ : Table D U} : ∀ {ds : List D} {n : Nat} {t : Table D U},
    stmt.Stores T n t ds t₁ → stmt.Stores T n t ds t₂ → t₁ = t₂ := by
  intro ds
  induction ds with
  | nil =>
    rintro n t rfl rfl
    rfl
  | cons d ds ih =>
    rintro n t ⟨rid, t', hins, hrest⟩ ⟨rid', t'', hins', hrest'⟩
    cases hins.symm.trans hins'
    exact ih hrest hrest'

end Stores

/-- Rows that can be made, up to different places: one list goes on where the other ends. -/
theorem eq_append_of_madeRows {A E : Type} {ds ds' : List A} {d : A} {rest rest' : List (Except E A)} {e : E}
    (h : ds.map Except.ok ++ .ok d :: rest = ds'.map Except.ok ++ .error e :: rest') :
    ∃ more, ds' = ds ++ d :: more := by
  induction ds generalizing ds' with
  | nil =>
    cases ds' with
    | nil => cases h
    | cons d' ds' =>
      obtain ⟨hd, -⟩ := List.cons.inj h
      obtain rfl := Except.ok.inj hd
      exact ⟨ds', rfl⟩
  | cons a ds ih =>
    cases ds' with
    | nil => cases h
    | cons a' ds' =>
      obtain ⟨ha, hrest⟩ := List.cons.inj h
      obtain rfl := Except.ok.inj ha
      obtain ⟨more, rfl⟩ := ih hrest
      exact ⟨more, rfl⟩

section Insert

variable {db db₁ db₂ : Database D U} {T : Int} {tid : TableId} {t₀ t : Table D U}
  {ops : List Operation} {rows : List (RecordId × Row D)} {rc : RC}

theorem Inserting.start (tid : TableId) (h : t.Sound) : Inserting T tid t t [] [] where
  added := .refl _
  fields _ ho := absurd ho List.not_mem_nil
  ops type l := by simp
  indexes := List.forall₂_same.mpr fun i hi => Plus.nothing (h i hi)

theorem Inserting.sound (h : Inserting T tid t₀ t ops rows) : t.Sound :=
  forall₂_right h.indexes fun _ _ hi => hi.sound

/-- A row more. -/
theorem Inserting.push (h : Inserting T tid t₀ t ops rows) {t' : Table D U} {rid : RecordId} {data : D}
    (hfree : t.file.row rid = none) (hfile : t'.file = t.file.bind rid ⟨-T, maxTrxId, data⟩)
    (hindexes : List.Forall₂ (Inserted data rid) t.indexes t'.indexes) :
    Inserting T tid t₀ t' (ops ++ [⟨.insert, tid, rid⟩]) ((rid, ⟨-T, maxTrxId, data⟩) :: rows) := by
  -- the file, the marks of the rows, the list of operations, the indexes
  constructor
  · rw [hfile]
    exact @Added.bind D t₀.file t.file rows (rid, ⟨-T, maxTrxId, data⟩) h.added hfree
  · intro o ho
    rcases List.mem_cons.mp ho with rfl | ho
    · exact ⟨rfl, rfl⟩
    · exact h.fields o ho
  · intro type l
    rw [List.mem_append, List.mem_singleton, h.ops, List.map_cons, List.mem_cons]
    constructor
    · rintro (⟨htype, htid, hmem⟩ | heq)
      · exact ⟨htype, htid, Or.inr hmem⟩
      · obtain ⟨rfl, rfl⟩ := Operation.mk.inj heq
        exact ⟨rfl, rfl, Or.inl rfl⟩
    · rintro ⟨rfl, htid, hrid | hmem⟩
      · obtain ⟨tid', rid'⟩ := l
        obtain rfl : tid' = tid := htid
        obtain rfl : rid' = rid := hrid
        exact Or.inr rfl
      · exact Or.inl ⟨rfl, htid, hmem⟩
  · refine forall₂_comp h.indexes hindexes fun i₀ i i' hplus hins => ?_
    refine hplus.inserted hins (ownRows_eq_none.mpr fun hmem => ?_)
    obtain ⟨o, ho, rfl⟩ := List.mem_map.mp hmem
    cases hfree.symm.trans (h.added.stored o ho)

/-- When a row is refused, what has been inserted is to be taken back. -/
theorem Inserting.takingBack (h : Inserting T tid t₀ t ops rows) (rid : RecordId) :
    TakingBack T tid t₀.file t.file ops (rows.map Prod.fst) rid := by
  by_cases hmem : rid ∈ rows.map Prod.fst
  · obtain ⟨o, ho, rfl⟩ := List.mem_map.mp hmem
    refine Or.inr ⟨h.added.free o ho, ⟨o.2, h.added.stored o ho, (h.fields o ho).1⟩, ?_, Or.inl hmem⟩
    exact (h.ops _ _).mpr ⟨rfl, rfl, hmem⟩
  · refine Or.inl ⟨hmem, h.added.other rid hmem, ?_⟩
    rintro ⟨type, l⟩ hop rfl
    exact hmem ((h.ops _ _).mp hop).2.2

/-- All rows are taken back; their entries stay. -/
theorem takeBackRows_spec {f₀ : RecordFile D} {records : List RecordId} : ∀ {t : Table D U} {ops : List Operation}
    {db₁ : Database D U}, 0 < T → Opened db T tid t ops db₁ →
    (∀ rid, TakingBack T tid f₀ t.file ops records rid) →
    takeBackRows T tid db₁ records = .ok db₂ →
    ∃ t' ops', Opened db T tid t' ops' db₂ ∧ t'.indexes = t.indexes ∧
      ∀ rid, TakingBack T tid f₀ t'.file ops' [] rid := by
  induction records with
  | nil =>
    intro t ops db₁ _ hopen hstate hrun
    obtain rfl := Except.ok.inj hrun
    exact ⟨t, ops, hopen, rfl, hstate⟩
  | cons rid records ih =>
    intro t ops db₁ hT hopen hstate hrun
    rw [takeBackRows] at hrun
    obtain ⟨⟨rc2, db₃⟩, hdel, hrun⟩ := ok_of_bind hrun
    -- the row is the transaction's own
    obtain ⟨hfree, ⟨r, hr, hbegin⟩, hins⟩ :
        f₀.row rid = none ∧ (∃ r, t.file.row rid = some r ∧ r.beginXid = -T) ∧
          ⟨.insert, tid, rid⟩ ∈ ops := by
      rcases hstate rid with ⟨hnot, -⟩ | ⟨hfree, hr, hins, -⟩
      · exact absurd (by simp) hnot
      · exact ⟨hfree, hr, hins⟩
    have hw : Writable T r := by
      rw [writable_iff]
      omega
    rcases hopen.deleteRecord hdel with ⟨rfl, r', hr', -, hopen₃⟩ | ⟨-, hnot, -⟩
    · obtain rfl := Option.some.inj (hr.symm.trans hr')
      have hstate₃ : ∀ s, TakingBack T tid f₀ (t.file.bind rid { r with endXid := -T })
          (ops ++ [⟨.delete, tid, rid⟩]) records s := by
        intro s
        by_cases hs : s = rid
        · subst hs
          refine Or.inr ⟨hfree, ⟨_, RecordFile.bind_row_self .., hbegin⟩, ?_, Or.inr ?_⟩
          · exact List.mem_append_left _ hins
          · exact List.mem_append_right _ (List.mem_singleton_self _)
        · rcases hstate s with ⟨hnot, hrow, hops⟩ | ⟨hfree', ⟨r', hr', hb'⟩, hins', hgone⟩
          · refine Or.inl ⟨fun hmem => hnot (List.mem_cons_of_mem rid hmem), ?_, ?_⟩
            · rw [RecordFile.bind_row_of_ne _ _ hs, hrow]
            · intro op hop
              rcases List.mem_append.mp hop with hop | hop
              · exact hops op hop
              · rw [List.mem_singleton.mp hop]
                exact fun heq => hs (congrArg Prod.snd heq).symm
          · refine Or.inr ⟨hfree', ⟨r', ?_, hb'⟩, List.mem_append_left _ hins', ?_⟩
            · rw [RecordFile.bind_row_of_ne _ _ hs, hr']
            · rcases hgone with hgone | hgone
              · rcases List.mem_cons.mp hgone with heq | hgone
                · exact absurd heq hs
                · exact Or.inl hgone
              · exact Or.inr (List.mem_append_left _ hgone)
      exact @ih (marked T t rid r) _ _ hT hopen₃ hstate₃ hrun
    · exact absurd ⟨r, hr, hw⟩ hnot

/-- How `open` of an INSERT ends; `before` are the data of the rows that are in when it starts, the last one first. -/
inductive InsertEnds (db : Database D U) (T : Int) (stmt : InsertStmt D) (t₀ : Table D U)
    (before : List D) (n : Nat) (t : Table D U) (todo : List (Except RC D)) (db₂ : Database D U) :
    RC → Prop where
  /-- All rows are in. -/
  | stored (ds : List D) {t' : Table D U} {ops : List Operation} {rows : List (RecordId × Row D)} :
      todo = ds.map .ok → stmt.Stores T n t ds t' → Opened db T stmt.tid t' ops db₂ →
      Inserting T stmt.tid t₀ t' ops rows → (rows.map fun o => o.2.data) = ds.reverse ++ before →
      InsertEnds db T stmt t₀ before n t todo db₂ .success
  /-- A row cannot be made; those before it are in. -/
  | notMade (ds : List D) {t' : Table D U} {ops : List Operation} {rows : List (RecordId × Row D)}
      {rc : RC} {rest : List (Except RC D)} :
      todo = ds.map .ok ++ .error rc :: rest → stmt.Stores T n t ds t' →
      Opened db T stmt.tid t' ops db₂ → Inserting T stmt.tid t₀ t' ops rows →
      (rows.map fun o => o.2.data) = ds.reverse ++ before → InsertEnds db T stmt t₀ before n t todo db₂
        rc
  /-- The table `t₁` refuses a row and is `t₂` afterwards; the rows before it are taken back. -/
  | refused (ds : List D) (d : D) {t₁ t₂ t' : Table D U} {ops₁ ops : List Operation}
      {rows : List (RecordId × Row D)} {rest : List (Except RC D)} {rc : RC} {rid : Option RecordId} : rc ≠ .success →
      todo = ds.map .ok ++ .ok d :: rest → stmt.Stores T n t ds t₁ → Inserting T stmt.tid t₀ t₁ ops₁ rows →
      (rows.map fun o => o.2.data) = ds.reverse ++ before →
      t₁.insertRecord ((stmt.placement (n + ds.length)).place 0) ⟨-T, maxTrxId, d⟩ = .ok (rc, rid, t₂) →
      Opened db T stmt.tid t' ops db₂ → t'.indexes = t₂.indexes →
      (∀ rid, TakingBack T stmt.tid t₀.file t'.file ops [] rid) →
      InsertEnds db T stmt t₀ before n t todo db₂ rc

/-- **INSERT**, the loop. -/
theorem openInsert_ends {stmt : InsertStmt D} (hT : 0 < T) : ∀ {todo : List (Except RC D)} {n : Nat}
    {rows : List (RecordId × Row D)} {t : Table D U} {ops : List Operation} {db₁ : Database D U},
    Opened db T stmt.tid t ops db₁ → Inserting T stmt.tid t₀ t ops rows →
    openInsert T stmt n (rows.map Prod.fst) db₁ todo = .ok (rc, db₂) →
    InsertEnds db T stmt t₀ (rows.map fun o => o.2.data) n t todo db₂ rc := by
  intro todo
  induction todo with
  | nil =>
    intro n rows t ops db₁ hopen hins hrun
    obtain ⟨rfl, rfl⟩ := Prod.mk.inj (Except.ok.inj hrun)
    exact .stored [] rfl rfl hopen hins rfl
  | cons row todo ih =>
    intro n rows t ops db₁ hopen hins hrun
    cases row with
    | error rc' =>
      obtain ⟨rfl, rfl⟩ := Prod.mk.inj (Except.ok.inj hrun)
      exact .notMade [] rfl rfl hopen hins rfl
    | ok data =>
      rw [openInsert] at hrun
      obtain ⟨⟨rc', db₃⟩, hrow, hrun⟩ := ok_of_bind hrun
      obtain ⟨rid', t₂, htable, hcases⟩ := hopen.insertRecord hrow
      dsimp only at hrun
      -- the row is stored and the others follow, or it is refused and those before it are taken back
      rcases hcases with ⟨rfl, rid, rfl, hfree, hlast, hfile, hopen₃⟩ | ⟨hrc, hfile, hopen₃⟩
      · rw [if_neg (by simp), hlast] at hrun
        obtain ⟨rid', hrid, hindexes⟩ := hins.sound.insertRecord_inserted htable
        obtain rfl := Option.some.inj hrid
        have hins₃ := hins.push hfree hfile hindexes
        have hends := ih hopen₃ hins₃ hrun
        clear hrun
        cases hends with
        | stored ds htodo hstores hopen' hins' hdata =>
          refine .stored (data :: ds) (congrArg (.ok data :: ·) htodo) ⟨_, t₂, htable, hstores⟩ hopen' hins' ?_
          rw [hdata]
          simp
        | notMade ds htodo hstores hopen' hins' hdata =>
          refine .notMade (data :: ds) (congrArg (.ok data :: ·) htodo) ⟨_, t₂, htable, hstores⟩ hopen' hins' ?_
          rw [hdata]
          simp
        | refused ds d hrc htodo hstores hins' hdata hrefused hopen' hsame hback =>
          rw [Nat.add_assoc, Nat.add_comm 1] at hrefused
          refine .refused (data :: ds) d hrc (congrArg (.ok data :: ·) htodo) ⟨_, t₂, htable, hstores⟩ hins' ?_
            hrefused hopen' hsame hback
          rw [hdata]
          simp
      · rw [if_pos hrc] at hrun
        obtain ⟨db₄, hback, hrun⟩ := ok_of_bind hrun
        obtain ⟨rfl, rfl⟩ := Prod.mk.inj (Except.ok.inj hrun)
        have hstate : ∀ rid, TakingBack T stmt.tid t₀.file t₂.file ops (rows.map Prod.fst) rid := by
          rw [hfile]
          exact hins.takingBack
        obtain ⟨t', ops', hopen', hsame, hback'⟩ := takeBackRows_spec hT hopen₃ hstate hback
        exact .refused [] data hrc rfl rfl hins rfl htable hopen' hsame hback'

end Insert

/-! ## INSERT, committed -/

section InsertCommitted

variable {db db' : Database D U} {T reader : Int} {tid : TableId} {t₀ t t' : Table D U}
  {ops : List Operation} {rows : List (RecordId × Row D)}

theorem Started.commit_pos (h : Started db T) : 0 < db.currentTrxId + 1 ∧ T < db.currentTrxId + 1 := by
  have := h.pos
  have := h.le
  omega

/-- What the transaction has not touched stays as it is. -/
theorem Closed.row_untouched (h : Closed db tid t ops db' t') {rid : RecordId}
    (hops : ∀ op ∈ ops, op.loc ≠ (tid, rid)) : t'.file.row rid = t.file.row rid := by
  have hid : committed (db.currentTrxId + 1) ops (tid, rid) = (id : Row D → Row D) :=
    funext fun r => committed_of_not_mem r hops
  rw [h.row, hid, Option.map_id]
  rfl

theorem Closed.seen (h : Closed db tid t ops db' t') (reader : Int) :
    seen db' reader tid = t'.file.collect fun _ => read reader := by
  rw [Sql.seen, recordFile_of_table h.table]

/-- The rows that are in are read. -/
theorem Inserting.seen (h : Inserting T tid t₀ t ops rows) (hclosed : Closed db tid t ops db' t')
    (hstarted : Started db T) (hlt : db'.currentTrxId < reader) (hmax : reader < maxTrxId) :
    Sql.seen db' reader tid = (rows.map fun o => o.2.data : List D) + t₀.file.collect fun _ => read reader := by
  obtain ⟨hc, -⟩ := hstarted.commit_pos
  rw [hclosed.counter] at hlt
  -- behind the commit the rows carry its identifier
  have hadded : Added t₀.file t'.file
      (rows.map fun o => (o.1, ⟨db.currentTrxId + 1, maxTrxId, o.2.data⟩)) := by
    have hmap : (rows.map fun o => (o.1, (⟨db.currentTrxId + 1, maxTrxId, o.2.data⟩ : Row D))).map
        Prod.fst = rows.map Prod.fst := by
      rw [List.map_map]
      rfl
    constructor
    · rw [hmap]
      exact h.added.nodup
    · intro o' ho'
      obtain ⟨o, ho, rfl⟩ := List.mem_map.mp ho'
      exact h.added.free o ho
    -- the commit writes it into `begin_xid`, as the row was inserted and not deleted
    · intro o' ho'
      obtain ⟨o, ho, rfl⟩ := List.mem_map.mp ho'
      have hmem : o.1 ∈ rows.map Prod.fst := List.mem_map_of_mem ho
      have hins : ⟨.insert, tid, o.1⟩ ∈ ops := (h.ops _ _).mpr ⟨rfl, rfl, hmem⟩
      have hdel : ⟨.delete, tid, o.1⟩ ∉ ops := fun hop => nomatch ((h.ops _ _).mp hop).1
      rw [hclosed.row, h.added.stored o ho, Option.map_some, committed, if_pos hins, if_neg hdel,
        (h.fields o ho).2]
    · intro rid hrid
      rw [hmap] at hrid
      rw [hclosed.row_untouched, h.added.other rid hrid]
      rintro ⟨type, l⟩ hop rfl
      exact hrid ((h.ops _ _).mp hop).2.2
  -- what the reader sees is what was added and what it saw before
  rw [hclosed.seen, hadded.collect, List.filterMap_map]
  congr 1
  refine congrArg _ ?_
  rw [← List.filterMap_eq_map]
  exact List.filterMap_congr fun o _ => read_inserted hc hlt hmax o.2.data

/-- A row that a later transaction reads after the rows have been taken back was there before. -/
theorem TakingBack.row_visible (h : ∀ rid, TakingBack T tid t₀.file t.file ops [] rid)
    (hclosed : Closed db tid t ops db' t') (hstarted : Started db T) (hlt : db'.currentTrxId < reader)
    {rid : RecordId} {r : Row D} (hr : t'.file.row rid = some r) (hv : Visible reader r) :
    t₀.file.row rid = some r := by
  obtain ⟨hc, -⟩ := hstarted.commit_pos
  rw [hclosed.counter] at hlt
  rcases h rid with ⟨-, heq, hops⟩ | ⟨hfree, ⟨r₁, hr₁, -⟩, hins, hgone⟩
  · rwa [← heq, ← hclosed.row_untouched hops]
  · have hdel : ⟨.delete, tid, rid⟩ ∈ ops := hgone.resolve_left List.not_mem_nil
    rw [hclosed.row, hr₁, Option.map_some, committed, if_pos hins, if_pos hdel] at hr
    obtain rfl := Option.some.inj hr
    exact absurd hv (read_eq_none.mp (read_takenBack hc hlt r₁.data))

/-- The rows that are taken back are not read. -/
theorem TakingBack.seen (h : ∀ rid, TakingBack T tid t₀.file t.file ops [] rid)
    (hclosed : Closed db tid t ops db' t') (hstarted : Started db T) (hlt : db'.currentTrxId < reader) :
    Sql.seen db' reader tid = t₀.file.collect fun _ => read reader := by
  obtain ⟨hc, -⟩ := hstarted.commit_pos
  rw [hclosed.seen]
  rw [hclosed.counter] at hlt
  refine RecordFile.collect_congr fun rid => ?_
  rcases h rid with ⟨-, heq, hops⟩ | ⟨hfree, ⟨r, hr, -⟩, hins, hgone⟩
  · rw [hclosed.row_untouched hops, heq]
  · have hdel : ⟨.delete, tid, rid⟩ ∈ ops := hgone.resolve_left List.not_mem_nil
    rw [hclosed.row, hfree, hr, Option.map_some, committed, if_pos hins, if_pos hdel]
    exact read_takenBack hc hlt r.data

end InsertCommitted

/-! ## DELETE -/

/-- The rows `gone` of `f₀` carry the end mark of the transaction in `f`. -/
structure Deleting (T : Int) (tid : TableId) (f₀ f : RecordFile D) (ops : List Operation)
    (gone : List RecordId) : Prop where
  row : ∀ rid, f.row rid =
    if rid ∈ gone then (f₀.row rid).map fun r => { r with endXid := -T } else f₀.row rid
  deletable : ∀ rid ∈ gone, Deletable T f₀ rid
  ops : ∀ type l, ⟨type, l⟩ ∈ ops ↔ type = .delete ∧ l.1 = tid ∧ l.2 ∈ gone

section Delete

variable {db db₁ db₂ db' : Database D U} {T reader : Int} {tid : TableId} {t t' : Table D U} {f₀ f : RecordFile D}
  {ops : List Operation} {gone : List RecordId} {rc : RC}

/-- One more row is marked and noted. -/
theorem Deleting.push (h : Deleting T tid f₀ f ops gone) {rid : RecordId} {r : Row D}
    (hnot : rid ∉ gone) (hr : f.row rid = some r) (hw : Writable T r) :
    Deleting T tid f₀ (f.bind rid { r with endXid := -T }) (ops ++ [⟨.delete, tid, rid⟩])
      (gone ++ [rid]) := by
  have hr₀ : f₀.row rid = some r := by
    have hrow := h.row rid
    rwa [if_neg hnot, hr, eq_comm] at hrow
  -- the file, the rows that may be deleted, the list of operations
  constructor
  · intro s
    by_cases hs : s = rid
    · subst hs
      rw [RecordFile.bind_row_self, if_pos (by simp), hr₀]
      rfl
    · rw [RecordFile.bind_row_of_ne _ _ hs, h.row s]
      simp [hs]
  · intro s hs
    rcases List.mem_append.mp hs with hs | hs
    · exact h.deletable s hs
    · rw [List.mem_singleton.mp hs]
      exact ⟨r, hr₀, hw⟩
  · intro type l
    rw [List.mem_append, List.mem_singleton, h.ops, List.mem_append, List.mem_singleton]
    constructor
    · rintro (⟨htype, htid, hmem⟩ | heq)
      · exact ⟨htype, htid, Or.inl hmem⟩
      · obtain ⟨rfl, rfl⟩ := Operation.mk.inj heq
        exact ⟨rfl, rfl, Or.inr rfl⟩
    · rintro ⟨rfl, htid, hmem | hrid⟩
      · exact Or.inl ⟨rfl, htid, hmem⟩
      · obtain ⟨tid', rid'⟩ := l
        obtain rfl : tid' = tid := htid
        obtain rfl : rid' = rid := hrid
        exact Or.inr rfl

/-- **DELETE**, the loop: every row is marked, or those before the first one that cannot be. -/
theorem deleteRecords_spec {records : List RecordId} : ∀ {t : Table D U} {ops : List Operation}
    {gone : List RecordId} {db₁ : Database D U}, Opened db T tid t ops db₁ →
    Deleting T tid f₀ t.file ops gone → (gone ++ records).Nodup →
    deleteRecords T tid db₁ records = .ok (rc, db₂) →
    ∃ t' ops' gone', Opened db T tid t' ops' db₂ ∧ t'.indexes = t.indexes ∧ Deleting T tid f₀ t'.file ops' gone' ∧
      ((rc = .success ∧ gone' = gone ++ records) ∨ (rc ≠ .success ∧ ∃ pre rid post,
        records = pre ++ rid :: post ∧ gone' = gone ++ pre ∧ ¬ Deletable T f₀ rid)) := by
  -- the induction is on the records still to be deleted
  induction records with
  | nil =>
    intro t ops gone db₁ hopen hdel _ hrun
    obtain ⟨rfl, rfl⟩ := Prod.mk.inj (Except.ok.inj hrun)
    exact ⟨t, ops, gone, hopen, rfl, hdel, Or.inl ⟨rfl, (List.append_nil gone).symm⟩⟩
  | cons rid records ih =>
    intro t ops gone db₁ hopen hdel hnd hrun
    rw [deleteRecords] at hrun
    obtain ⟨⟨rc', db₃⟩, hstep, hnext⟩ := ok_of_bind hrun
    clear hrun
    have hnot : rid ∉ gone := fun hmem => (List.nodup_append.mp hnd).2.2 rid hmem rid (by simp) rfl
    have hrow : t.file.row rid = f₀.row rid := by rw [hdel.row rid, if_neg hnot]
    dsimp only at hnext
    -- the row is deleted, or the statement stops in front of it
    rcases hopen.deleteRecord hstep with ⟨rfl, r, hr, hw, hopen₃⟩ | ⟨hrc, hno, rfl⟩
    · rw [if_neg (by simp)] at hnext
      have hsplit : gone ++ rid :: records = (gone ++ [rid]) ++ records := by simp
      obtain ⟨t', ops', gone', hopen', hindexes, hdel', hcases⟩ :=
        @ih (marked T t rid r) _ _ _ hopen₃ (hdel.push hnot hr hw) (hsplit ▸ hnd) hnext
      refine ⟨t', ops', gone', hopen', hindexes, hdel', ?_⟩
      rcases hcases with ⟨hrc, rfl⟩ | ⟨hrc, pre, s, post, rfl, rfl, hs⟩
      · exact Or.inl ⟨hrc, hsplit.symm⟩
      · exact Or.inr ⟨hrc, rid :: pre, s, post, rfl, by simp, hs⟩
    · rw [if_pos hrc] at hnext
      obtain ⟨rfl, rfl⟩ := Prod.mk.inj (Except.ok.inj hnext)
      refine ⟨t, ops, gone, hopen, rfl, hdel, Or.inr ⟨hrc, [], rid, records, rfl, by simp, ?_⟩⟩
      rintro ⟨r, hr, hw⟩
      exact hno ⟨r, hrow.trans hr, hw⟩

/-- Only hidden fields change. -/
theorem Deleting.row_data (h : Deleting T tid f₀ t.file ops gone) (hclosed : Closed db tid t ops db' t')
    {rid : RecordId} {r' : Row D} (hr' : t'.file.row rid = some r') :
    ∃ r, f₀.row rid = some r ∧ r.data = r'.data := by
  rw [hclosed.row, h.row] at hr'
  obtain ⟨r₁, hr₁, rfl⟩ := Option.map_eq_some_iff.mp hr'
  split at hr₁
  · obtain ⟨r, hr, rfl⟩ := Option.map_eq_some_iff.mp hr₁
    exact ⟨r, hr, rfl⟩
  · exact ⟨r₁, hr₁, rfl⟩

/-- The marked rows are not read, unless LOAD DATA has brought them. -/
theorem Deleting.seen (h : Deleting T tid f₀ t.file ops gone) (hclosed : Closed db tid t ops db' t')
    (hstarted : Started db T) (hlt : db'.currentTrxId < reader) :
    Sql.seen db' reader tid = f₀.collect fun rid r =>
      if rid ∈ gone ∧ r.beginXid ≠ 0 then none else read reader r := by
  obtain ⟨-, hTc⟩ := hstarted.commit_pos
  rw [hclosed.seen]
  rw [hclosed.counter] at hlt
  refine RecordFile.collect_congr fun rid => ?_
  rw [hclosed.row, h.row]
  have hins : ⟨.insert, tid, rid⟩ ∉ ops := fun hop => nomatch ((h.ops _ _).mp hop).1
  by_cases hmem : rid ∈ gone
  · obtain ⟨r, hr, hw⟩ := h.deletable rid hmem
    have hdel : ⟨.delete, tid, rid⟩ ∈ ops := (h.ops _ _).mpr ⟨rfl, rfl, hmem⟩
    rw [if_pos hmem, hr, Option.map_some, Option.map_some, committed, if_neg hins, if_pos hdel]
    refine (read_deleted hstarted.pos hTc hlt hw).trans ?_
    by_cases hzero : r.beginXid = 0
    · rw [if_pos hzero]
      simp [hzero, read_of_begin_zero hw hzero]
    · simp [hzero, hmem]
  · have hdel : ⟨.delete, tid, rid⟩ ∉ ops := fun hop => hmem ((h.ops _ _).mp hop).2.2
    rw [if_neg hmem]
    cases f₀.row rid with
    | none => rfl
    | some r =>
      rw [Option.map_some, committed, if_neg hins, if_neg hdel]
      simp [hmem]

end Delete

end Miniob.Sql
