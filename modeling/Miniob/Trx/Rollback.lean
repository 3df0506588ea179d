/-
  A transaction that rolls back.

  `MvccTrx::rollback` works the operations off from the last to the first, and each of them undoes
  what the transaction has done with it: `Since` relates the database before the transaction to the
  one in which a list of operations has been done and not undone.  UPDATE statements are not among
  the operations, so they stay.
-/
import Miniob.Trx.Indexes
import Miniob.Trx.InRange

namespace Miniob.Trx

open Miniob.Common Miniob.Db Miniob.Storage TableIndex

variable {D U : Type}

/-! ## Every run -/

section Run

variable {db : Database D U}

/-- All index trees of the database are sound. -/
def Sound (db : Database D U) : Prop := ∀ tid t, db.tables tid = some t → t.Sound

/-- The database is sound if the new table is. -/
theorem Sound.setTable (h : Sound db) {tid : TableId} {t : Table D U} (ht : t.Sound) :
    Sound (db.setTable tid t) := by
  intro tid' t' ht'
  replace ht' : (if tid' = tid then some t else db.tables tid') = some t' := ht'
  split at ht'
  · obtain rfl := Option.some.inj ht'
    exact ht
  · exact h tid' t' ht'

/-- A new index is sound, on keys that are totally ordered. -/
theorem createIndex_sound {t t' : Table D U} {T : Int} {m : IndexMeta D U} {rc : RC} (h : t.Sound)
    (hordered : Std.TransCmp m.attrCmp) (hrun : t.createIndex T m = .ok (rc, t')) : t'.Sound := by
  obtain ⟨rc', i, hfill, hdef, hspec⟩ := @Table.fillIndex_spec D U T t.file t.file.rids _ _
    (IndexMeta.create_holds hordered)
  unfold Table.createIndex at hrun
  rw [bind_ok _ hfill] at hrun
  dsimp only at hrun
  split at hrun
  · obtain ⟨-, rfl⟩ := Prod.mk.inj (Except.ok.inj hrun)
    exact h
  · rename_i hrc
    obtain ⟨-, rfl⟩ := Prod.mk.inj (Except.ok.inj hrun)
    obtain ⟨es, hes, -⟩ := hspec (not_not.mp hrc)
    intro j hj
    rcases List.mem_append.mp hj with hj | hj
    · exact h j hj
    · obtain rfl := List.mem_singleton.mp hj
      exact ⟨es, hes⟩

/-- CREATE INDEX is on columns without NULL, so that the comparator is a total order of the keys. -/
def OrderedKeys : Action D U → Prop
  | .createIndex _ _ m => Std.TransCmp m.attrCmp
  | _ => True

/-- **Step.** -/
theorem Sound.step {db' : Database D U} {a : Action D U} {rc : RC} (h : Sound db) (hok : OrderedKeys a)
    (hstep : db.step a = .ok (rc, db')) : Sound db' := by
  cases a with
  | start =>
    obtain ⟨-, rfl⟩ := Prod.mk.inj (Except.ok.inj hstep)
    exact h
  | insertRecord T tid data p =>
    replace hstep : db.insertRecord T tid data p = .ok (rc, db') := hstep
    unfold Database.insertRecord at hstep
    obtain ⟨x, -, hstep⟩ := ok_of_bind hstep
    obtain ⟨t, ht, hstep⟩ := ok_of_bind hstep
    obtain ⟨⟨rc', rid, t'⟩, hins, hstep⟩ := ok_of_bind hstep
    have h' := (h tid t (Database.findTable_ok ht)).insertRecord_sound hins
    dsimp only at hstep
    split at hstep
    · obtain ⟨-, rfl⟩ := Prod.mk.inj (Except.ok.inj hstep)
      exact h.setTable h'
    · obtain ⟨-, rfl⟩ := Prod.mk.inj (Except.ok.inj hstep)
      exact h.setTable h'
  | deleteRecord T tid rid =>
    replace hstep : db.deleteRecord T tid rid = .ok (rc, db') := hstep
    unfold Database.deleteRecord at hstep
    obtain ⟨x, -, hstep⟩ := ok_of_bind hstep
    obtain ⟨t, ht, hstep⟩ := ok_of_bind hstep
    dsimp only at hstep
    split at hstep
    · obtain ⟨-, rfl⟩ := Prod.mk.inj (Except.ok.inj hstep)
      exact h
    · split at hstep
      · obtain ⟨-, rfl⟩ := Prod.mk.inj (Except.ok.inj hstep)
        exact h
      · obtain ⟨-, rfl⟩ := Prod.mk.inj (Except.ok.inj hstep)
        exact h.setTable (h tid t (Database.findTable_ok ht))
  | commit T =>
    obtain ⟨x, -, hstep⟩ := ok_of_bind hstep
    obtain ⟨-, rfl⟩ := Prod.mk.inj (Except.ok.inj hstep)
    exact h
  | commitOperation T =>
    replace hstep : db.commitOperation T = .ok (rc, db') := hstep
    unfold Database.commitOperation at hstep
    split at hstep
    · obtain ⟨t, ht, hstep⟩ := ok_of_bind hstep
      split at hstep
      · cases hstep
      · split at hstep
        · cases hstep
        · obtain ⟨-, rfl⟩ := Prod.mk.inj (Except.ok.inj hstep)
          exact h.setTable (h _ t (Database.findTable_ok ht))
    · cases hstep
  | rollback T =>
    obtain ⟨x, -, hstep⟩ := ok_of_bind hstep
    obtain ⟨-, rfl⟩ := Prod.mk.inj (Except.ok.inj hstep)
    exact h
  | rollbackOperation T =>
    replace hstep : db.rollbackOperation T = .ok (rc, db') := hstep
    unfold Database.rollbackOperation at hstep
    split at hstep
    · rename_i operations op pending hx
      obtain ⟨t, ht, hstep⟩ := ok_of_bind hstep
      have hsound := h _ t (Database.findTable_ok ht)
      dsimp only at hstep
      split at hstep
      · -- an inserted row is taken out again; the fields of a deleted one change, the index does not
        obtain ⟨⟨rc', t'⟩, hdel, hstep⟩ := ok_of_bind hstep
        dsimp only at hstep
        split at hstep
        · cases hstep
        · obtain ⟨-, rfl⟩ := Prod.mk.inj (Except.ok.inj hstep)
          refine h.setTable (t := t') ?_
          unfold Table.deleteRecordAt at hdel
          split at hdel
          · obtain ⟨-, rfl⟩ := Prod.mk.inj (Except.ok.inj hdel)
            exact hsound
          · exact hsound.deleteRecord_sound hdel
      · split at hstep
        · cases hstep
        · split at hstep
          · cases hstep
          · obtain ⟨-, rfl⟩ := Prod.mk.inj (Except.ok.inj hstep)
            exact h.setTable (t := { t with file := _ }) hsound
    · cases hstep
  | createTable tid =>
    replace hstep : db.createTable tid = .ok (rc, db') := hstep
    unfold Database.createTable at hstep
    split at hstep
    · cases hstep
    · obtain ⟨-, rfl⟩ := Prod.mk.inj (Except.ok.inj hstep)
      exact h.setTable (List.forall_mem_nil _)
  | createIndex T tid m =>
    obtain ⟨t, ht, hstep⟩ := ok_of_bind hstep
    obtain ⟨⟨rc', t'⟩, hcreate, hstep⟩ := ok_of_bind hstep
    obtain ⟨-, rfl⟩ := Prod.mk.inj (Except.ok.inj hstep)
    exact h.setTable (createIndex_sound (h tid t (Database.findTable_ok ht)) hok hcreate)
  | update T tid stmt p =>
    -- an UPDATE is deletions and insertions
    obtain ⟨x, -, hstep⟩ := ok_of_bind hstep
    obtain ⟨t, ht, hstep⟩ := ok_of_bind hstep
    obtain ⟨⟨rc', t'⟩, hrun, hstep⟩ := ok_of_bind hstep
    obtain ⟨-, rfl⟩ := Prod.mk.inj (Except.ok.inj hstep)
    refine h.setTable (openUpdate_preserves (P := Table.Sound) ?_ ?_
      (h tid t (Database.findTable_ok ht)) hrun)
    · exact fun t n r rc rid t' hsound hins => hsound.insertRecord_sound hins
    · exact fun t record rid rc t' hsound hdel => hsound.deleteRecord_sound hdel
  | insertMadeRecord tid data p =>
    obtain ⟨t, ht, hstep⟩ := ok_of_bind hstep
    obtain ⟨⟨rc', rid, t'⟩, hins, hstep⟩ := ok_of_bind hstep
    obtain ⟨-, rfl⟩ := Prod.mk.inj (Except.ok.inj hstep)
    exact h.setTable ((h tid t (Database.findTable_ok ht)).insertRecord_sound hins)

/-- **Run.**  Whatever has happened, the hidden fields are in range and the indexes are trees. -/
theorem inRange_of_reachable
    (h : Reachable Database.step (fun db a => CountsUp db a ∧ OrderedKeys a) .empty db) :
    InRange db.versions ∧ Sound db := by
  refine h.invariant (I := fun db => InRange db.versions ∧ Sound db)
    ⟨InRange.empty, ?_⟩ ?_
  · intro tid t ht
    cases ht
  · intro db a rc db' hinv hok hstep
    exact ⟨hinv.1.step hok.1 (Database.step_rowStep hstep), hinv.2.step hok.2 hstep⟩

end Run

/-! ## What a transaction has done -/

/-- The row at `l` before the transaction `T`, and after it has done the operations. -/
inductive RowSince (T : Int) (ops : List Operation) (l : Loc) :
    Option (Row D) → Option (Row D) → Prop where
  | untouched {r : Option (Row D)} : ⟨.insert, l⟩ ∉ ops → ⟨.delete, l⟩ ∉ ops → RowSince T ops l r r
  /-- A DELETE has been undone. -/
  | restored {r : Row D} : ⟨.insert, l⟩ ∉ ops → ⟨.delete, l⟩ ∉ ops → Writable T r →
      RowSince T ops l (some r) (some { r with endXid := maxTrxId })
  | inserted {data : D} : ⟨.insert, l⟩ ∈ ops → ⟨.delete, l⟩ ∉ ops →
      RowSince T ops l none (some ⟨-T, maxTrxId, data⟩)
  | insertedDeleted {data : D} : ⟨.insert, l⟩ ∈ ops → ⟨.delete, l⟩ ∈ ops →
      RowSince T ops l none (some ⟨-T, -T, data⟩)
  | deleted {r : Row D} : ⟨.insert, l⟩ ∉ ops → ⟨.delete, l⟩ ∈ ops → Writable T r →
      RowSince T ops l (some r) (some { r with endXid := -T })

/-- `i` is `i₀` with the entries of the records `own` added. -/
def Plus (own : RecordId → Option D) (i₀ i : TableIndex D U) : Prop :=
  SameDef i₀ i ∧ ∃ es₀ es, i₀.Holds es₀ ∧ i.Holds es ∧
    (∀ rid data, own rid = some data → i₀.entry data rid ∉ es₀) ∧
    ∀ e, e ∈ es ↔ e ∈ es₀ ∨ ∃ rid data, own rid = some data ∧ e = i₀.entry data rid

section Plus

variable {own : RecordId → Option D} {i₀ i i' : TableIndex D U} {rid : RecordId} {data : D}

/-- An index has no entry more than itself. -/
theorem Plus.nothing (h : i.Sound) : Plus (fun _ => none) i i := by
  obtain ⟨es, hes⟩ := h
  refine ⟨.refl i, es, es, hes, hes, ?_, fun e => ?_⟩
  · intro rid data hown
    cases hown
  · constructor
    · exact Or.inl
    · rintro (he | ⟨rid, data, hown, -⟩)
      · exact he
      · cases hown

theorem Plus.sound (h : Plus own i₀ i) : i.Sound := by
  obtain ⟨-, es₀, es, -, hes, -⟩ := h
  exact ⟨es, hes⟩

theorem Plus.same (h : Plus own i₀ i) (hi : SameEntries i i') : Plus own i₀ i' := by
  obtain ⟨hdef, es₀, es, h₀, hes, hrest⟩ := h
  exact ⟨hdef.trans hi.1, es₀, es, h₀, hi.holds hes, hrest⟩

/-- An insertion adds an entry of the transaction. -/
theorem Plus.inserted (h : Plus own i₀ i) (hi : Inserted data rid i i') (hfree : own rid = none) :
    Plus (fun rid' => if rid' = rid then some data else own rid') i₀ i' := by
  obtain ⟨hdef, es₀, es, h₀, hes, hfresh, hmem⟩ := h
  obtain ⟨hdef', es₁, es', h₁, hes', hnot, hmem'⟩ := hi
  obtain rfl := hes.unique h₁
  have hentry : ∀ d rid', i.entry d rid' = i₀.entry d rid' := fun d rid' => hdef.entry d rid'
  refine ⟨hdef.trans hdef', es₀, es', h₀, hes', ?_, fun e => ?_⟩
  -- the new key was in no entry before
  · intro rid' d hown
    by_cases heq : rid' = rid
    · subst heq
      obtain rfl := Option.some.inj ((if_pos rfl).symm.trans hown)
      intro hin
      refine hnot ((hes.rejects_iff _ _).mpr ⟨_, (hmem _).mpr (Or.inl hin), ?_⟩)
      rw [hentry]
      exact hes.compare_self _
    · exact hfresh rid' d ((if_neg heq).symm.trans hown)
  -- the entries are those of `es₀`, those of the rows so far and the new one
  · rw [hmem', hmem, hentry]
    constructor
    · rintro (rfl | he | ⟨rid', d, hown, rfl⟩)
      · exact Or.inr ⟨rid, data, if_pos rfl, rfl⟩
      · exact Or.inl he
      · refine Or.inr ⟨rid', d, (if_neg ?_).trans hown, rfl⟩
        rintro rfl
        cases hfree.symm.trans hown
    · rintro (he | ⟨rid', d, hown, rfl⟩)
      · exact Or.inr (Or.inl he)
      · by_cases heq : rid' = rid
        · subst heq
          obtain rfl := Option.some.inj ((if_pos rfl).symm.trans hown)
          exact Or.inl rfl
        · exact Or.inr (Or.inr ⟨rid', d, (if_neg heq).symm.trans hown, rfl⟩)

theorem Plus.holds (h : Plus own i₀ i) (hown : own rid = some data) :
    ∃ es, i.Holds es ∧ i.entry data rid ∈ es := by
  obtain ⟨hdef, es₀, es, -, hes, -, hmem⟩ := h
  refine ⟨es, hes, (hmem _).mpr (Or.inr ⟨rid, data, hown, hdef.entry _ _⟩)⟩

/-- A deletion takes one of them out. -/
theorem Plus.deleted (h : Plus own i₀ i) (hi : Deleted data rid i i') (hown : own rid = some data) :
    Plus (fun rid' => if rid' = rid then none else own rid') i₀ i' := by
  obtain ⟨hdef, es₀, es, h₀, hes, hfresh, hmem⟩ := h
  obtain ⟨hdef', es₁, es', h₁, hes', -, hmem'⟩ := hi
  obtain rfl := hes.unique h₁
  refine ⟨hdef.trans hdef', es₀, es', h₀, hes', ?_, fun e => ?_⟩
  · intro rid' d hown'
    dsimp only at hown'
    split at hown'
    · cases hown'
    · exact hfresh rid' d hown'
  · rw [hmem', hmem, hdef.entry]
    constructor
    · rintro ⟨he | ⟨rid', d, hown', rfl⟩, hne⟩
      · exact Or.inl he
      · refine Or.inr ⟨rid', d, (if_neg ?_).trans hown', rfl⟩
        rintro rfl
        obtain rfl := Option.some.inj (hown.symm.trans hown')
        exact hne rfl
    · rintro (he | ⟨rid', d, hown', rfl⟩)
      · exact ⟨Or.inl he, fun heq => hfresh rid data hown (heq ▸ he)⟩
      · dsimp only at hown'
        split at hown'
        · cases hown'
        · rename_i hne
          exact ⟨Or.inr ⟨rid', d, hown', rfl⟩, fun heq => hne (congrArg Prod.snd heq)⟩

/-- Nothing added. -/
theorem Plus.sameEntries (h : Plus own i₀ i) (hown : ∀ rid, own rid = none) : SameEntries i₀ i := by
  obtain ⟨hdef, es₀, es, h₀, hes, -, hmem⟩ := h
  refine ⟨hdef, es₀, h₀, ?_⟩
  rw [h₀.eq_of_mem_iff hdef hes fun e => ?_]
  · exact hes
  · rw [hmem]
    constructor
    · exact Or.inl
    · rintro (he | ⟨rid, data, hown', -⟩)
      · exact he
      · rw [hown] at hown'
        cases hown'

end Plus

/-- The record that an INSERT among the operations has stored. -/
def ownRecord (db : Database D U) (ops : List Operation) (tid : TableId) (rid : RecordId) : Option D :=
  if ⟨.insert, (tid, rid)⟩ ∈ ops then (db.row (tid, rid)).map Row.data else none

/-- `db` is `db₀` after the transaction `T` has done the operations, and possibly others that it has
    undone. -/
structure Since (db₀ : Database D U) (T : Int) (ops : List Operation) (db : Database D U) : Prop where
  order : ops.Pairwise (Operation.Before .active)
  rows : ∀ l, RowSince T ops l (db₀.row l) (db.row l)
  tables : ∀ tid, Option.Rel
    (fun t₀ t => List.Forall₂ (Plus (ownRecord db ops tid)) t₀.indexes t.indexes)
    (db₀.tables tid) (db.tables tid)

section Since

variable {db₀ db : Database D U} {T : Int} {ops : List Operation}

/-- What matters is which operations there are, not in which order. -/
theorem RowSince.congr {ops' : List Operation} {l : Loc} {r₀ r : Option (Row D)}
    (hmem : ∀ type, (⟨type, l⟩ : Operation) ∈ ops' ↔ ⟨type, l⟩ ∈ ops) (h : RowSince T ops l r₀ r) :
    RowSince T ops' l r₀ r := by
  cases h with
  | untouched h1 h2 => exact .untouched (mt (hmem _).mp h1) (mt (hmem _).mp h2)
  | restored h1 h2 hw => exact .restored (mt (hmem _).mp h1) (mt (hmem _).mp h2) hw
  | inserted h1 h2 => exact .inserted ((hmem _).mpr h1) (mt (hmem _).mp h2)
  | insertedDeleted h1 h2 => exact .insertedDeleted ((hmem _).mpr h1) ((hmem _).mpr h2)
  | deleted h1 h2 hw => exact .deleted (mt (hmem _).mp h1) ((hmem _).mpr h2) hw

/-- Other places are not concerned by an operation. -/
theorem mem_push {op : Operation} {l : Loc} (hl : l ≠ op.loc) (type : OperationType) :
    (⟨type, l⟩ : Operation) ∈ ops ++ [op] ↔ ⟨type, l⟩ ∈ ops := by
  rw [List.mem_append, List.mem_singleton]
  constructor
  · rintro (hin | rfl)
    · exact hin
    · exact absurd rfl hl
  · exact Or.inl

/-- The trees have been sound all along. -/
theorem Since.sound (h : Since db₀ T ops db) : Sound db := by
  intro tid t ht i hi
  have htables := h.tables tid
  rw [ht] at htables
  cases hrel : db₀.tables tid with
  | none =>
    rw [hrel] at htables
    cases htables
  | some t₀ =>
    rw [hrel] at htables
    cases htables with
    | some hall => exact forall₂_right hall (fun _ _ hplus => hplus.sound) i hi

/-- The table was there, with fewer entries in its indexes. -/
theorem Since.table (h : Since db₀ T ops db) {tid : TableId} {t : Table D U}
    (ht : db.tables tid = some t) : ∃ t₀, db₀.tables tid = some t₀ ∧
      List.Forall₂ (Plus (ownRecord db ops tid)) t₀.indexes t.indexes := by
  have htables := h.tables tid
  rw [ht] at htables
  cases hrel : db₀.tables tid with
  | none =>
    rw [hrel] at htables
    cases htables
  | some t₀ =>
    rw [hrel] at htables
    cases htables with
    | some hall => exact ⟨t₀, rfl, hall⟩

/-- The operations change at one place, and with them the row there and the indexes of its table. -/
theorem Since.change {ops' : List Operation} {tid : TableId} {rid : RecordId} {t t' : Table D U}
    {o : Option D} (h : Since db₀ T ops db) (ht : db.tables tid = some t)
    (horder : ops'.Pairwise (Operation.Before .active))
    (hops : ∀ l ≠ (tid, rid), ∀ type, (⟨type, l⟩ : Operation) ∈ ops' ↔ ⟨type, l⟩ ∈ ops)
    (hfile : ∀ rid' ≠ rid, t'.file.row rid' = t.file.row rid')
    (hrow : RowSince T ops' (tid, rid) (db₀.row (tid, rid)) (t'.file.row rid))
    (hown : (if ⟨.insert, (tid, rid)⟩ ∈ ops' then (t'.file.row rid).map Row.data else none) = o)
    (hindexes : ∀ t₀ : Table D U, List.Forall₂ (Plus (ownRecord db ops tid)) t₀.indexes t.indexes →
      List.Forall₂ (Plus fun rid' => if rid' = rid then o else ownRecord db ops tid rid')
        t₀.indexes t'.indexes) :
    Since db₀ T ops' (db.setTable tid t') := by
  -- only one place changes, in the file and in the list of operations; elsewhere everything is as it was
  have hrowNew : ∀ rid', (db.setTable tid t').row (tid, rid') = t'.file.row rid' :=
    Database.row_of_table (if_pos rfl)
  have hrowSame : ∀ l ≠ (tid, rid), (db.setTable tid t').row l = db.row l := by
    rintro ⟨tid', rid'⟩ hl
    by_cases htid : tid' = tid
    · subst htid
      rw [hrowNew, Database.row_of_table ht]
      exact hfile rid' fun heq => hl (by rw [heq])
    · show (if tid' = tid then some t' else db.tables tid').bind _ = _
      rw [if_neg htid]
      rfl
  -- so the rows of the transaction's own are the same at all other places
  have hownSame : ∀ l ≠ (tid, rid), ownRecord (db.setTable tid t') ops' l.1 l.2
      = ownRecord db ops l.1 l.2 := by
    intro l hl
    unfold ownRecord
    rw [hrowSame l hl]
    by_cases hin : (⟨.insert, l⟩ : Operation) ∈ ops
    · rw [if_pos hin, if_pos ((hops l hl _).mpr hin)]
    · rw [if_neg hin, if_neg (mt (hops l hl _).mp hin)]
  -- the rows, place by place
  refine ⟨horder, fun l => ?_, fun tid' => ?_⟩
  · by_cases hl : l = (tid, rid)
    · subst hl
      rw [hrowNew]
      exact hrow
    · rw [hrowSame l hl]
      exact (h.rows l).congr (hops l hl)
  -- the tables: in this one the indexes have changed with the row, the others are untouched
  · by_cases htid : tid' = tid
    · subst htid
      obtain ⟨t₀, ht₀, hall⟩ := h.table ht
      have hnew : (db.setTable tid' t').tables tid' = some t' := if_pos rfl
      have hfun : ownRecord (db.setTable tid' t') ops' tid'
          = fun rid' => if rid' = rid then o else ownRecord db ops tid' rid' := by
        funext rid'
        by_cases hrid : rid' = rid
        · subst hrid
          rw [if_pos rfl, ← hown]
          unfold ownRecord
          rw [hrowNew]
        · rw [if_neg hrid]
          exact hownSame (tid', rid') fun heq => hrid (Prod.mk.inj heq).2
      rw [ht₀, hnew, hfun]
      exact .some (hindexes t₀ hall)
    · have hold : (db.setTable tid t').tables tid' = db.tables tid' := if_neg htid
      have hfun : ownRecord (db.setTable tid t') ops' tid' = ownRecord db ops tid' := by
        funext rid'
        exact hownSame (tid', rid') fun heq => htid (Prod.mk.inj heq).1
      rw [hold, hfun]
      exact h.tables tid'

/-- Nothing changes but the trees. -/
theorem Since.same {tid : TableId} {t t' : Table D U} (h : Since db₀ T ops db)
    (ht : db.tables tid = some t) (hfile : t'.file = t.file)
    (hsame : List.Forall₂ SameEntries t.indexes t'.indexes) :
    Since db₀ T ops (db.setTable tid t') := by
  have hrow : (db.setTable tid t').row = db.row :=
    congrArg Versions.row (Database.versions_setTable_same ht hfile)
  have hown : ∀ tid', ownRecord (db.setTable tid t') ops tid' = ownRecord db ops tid' := by
    intro tid'
    funext rid
    unfold ownRecord
    rw [hrow]
  refine ⟨h.order, fun l => ?_, fun tid' => ?_⟩
  · rw [hrow]
    exact h.rows l
  · rw [hown]
    by_cases htid : tid' = tid
    · subst htid
      obtain ⟨t₀, ht₀, hall⟩ := h.table ht
      have hnew : (db.setTable tid' t').tables tid' = some t' := if_pos rfl
      rw [ht₀, hnew]
      exact .some (forall₂_comp hall hsame fun _ _ _ hplus hi => hplus.same hi)
    · have hold : (db.setTable tid t').tables tid' = db.tables tid' := if_neg htid
      rw [hold]
      exact h.tables tid'

/-- At a place without a row nothing has been done. -/
theorem Since.free (h : Since db₀ T ops db) {l : Loc} (hr : db.row l = none) :
    db₀.row l = none ∧ ∀ type, (⟨type, l⟩ : Operation) ∉ ops := by
  have hrow := h.rows l
  rw [hr] at hrow
  generalize hr₀ : db₀.row l = r₀ at hrow
  cases hrow with
  | untouched h1 h2 =>
    refine ⟨rfl, fun type => ?_⟩
    cases type with
    | insert => exact h1
    | delete => exact h2

/-- The transaction inserts a row, and notes it. -/
theorem Since.insert (h : Since db₀ T ops db) {tid : TableId} {rid : RecordId} {t : Table D U}
    {data : D} {indexes : List (TableIndex D U)} (ht : db.tables tid = some t)
    (hfree : t.file.row rid = none) (hall : List.Forall₂ (Inserted data rid) t.indexes indexes) :
    Since db₀ T (ops ++ [⟨.insert, (tid, rid)⟩])
      (db.setTable tid ⟨t.file.bind rid ⟨-T, maxTrxId, data⟩, indexes⟩) := by
  obtain ⟨hr₀, hnot⟩ := h.free (l := (tid, rid)) (by rw [Database.row_of_table ht, hfree])
  refine h.change (o := some data) ht ?_ (fun l hl => mem_push hl) ?_ ?_ ?_ ?_
  -- nothing was done at the place before, so the order is kept
  · refine List.pairwise_append.mpr ⟨h.order, List.pairwise_singleton .., ?_⟩
    intro a ha b hb hab
    obtain rfl := List.mem_singleton.mp hb
    replace hab : a.loc = (tid, rid) := hab
    exact absurd (show (⟨a.type, (tid, rid)⟩ : Operation) ∈ ops from hab ▸ ha) (hnot a.type)
  · exact fun rid' hrid => RecordFile.bind_row_of_ne _ _ hrid
  -- the row is new since the start, and not deleted again
  · rw [hr₀]
    show RowSince T _ _ none ((t.file.bind rid _).row rid)
    rw [RecordFile.bind_row_self]
    refine .inserted (by simp) fun hdel => ?_
    rcases List.mem_append.mp hdel with hdel | hdel
    · exact hnot _ hdel
    · cases List.mem_singleton.mp hdel
  · rw [if_pos (by simp)]
    show ((t.file.bind rid _).row rid).map _ = _
    rw [RecordFile.bind_row_self]
    rfl
  -- the place was free, so the indexes have it as a new row
  · intro t₀ hplus
    refine forall₂_comp hplus hall fun i₀ i i' hi hins => hi.inserted hins ?_
    unfold ownRecord
    rw [if_neg (hnot _)]

/-- An operation that rewrites a hidden field of a row. -/
theorem Since.rebind {ops' : List Operation} (h : Since db₀ T ops db) {tid : TableId}
    {rid : RecordId} {t : Table D U} {r r' : Row D} (ht : db.tables tid = some t)
    (hr : t.file.row rid = some r) (hdata : r'.data = r.data)
    (horder : ops'.Pairwise (Operation.Before .active))
    (hops : ∀ l ≠ (tid, rid), ∀ type, (⟨type, l⟩ : Operation) ∈ ops' ↔ ⟨type, l⟩ ∈ ops)
    (hins : (⟨.insert, (tid, rid)⟩ : Operation) ∈ ops' ↔ ⟨.insert, (tid, rid)⟩ ∈ ops)
    (hrow : RowSince T ops' (tid, rid) (db₀.row (tid, rid)) (some r')) :
    Since db₀ T ops' (db.setTable tid { t with file := t.file.bind rid r' }) := by
  refine h.change (o := ownRecord db ops tid rid) ht horder hops ?_ ?_ ?_ ?_
  · exact fun rid' hrid => RecordFile.bind_row_of_ne _ _ hrid
  -- the data is the same, so the indexes need no change
  · show RowSince T _ _ _ ((t.file.bind rid _).row rid)
    rw [RecordFile.bind_row_self]
    exact hrow
  · unfold ownRecord
    show (if _ then ((t.file.bind rid _).row rid).map _ else none) = _
    rw [RecordFile.bind_row_self, Database.row_of_table ht, hr]
    by_cases hin : (⟨.insert, (tid, rid)⟩ : Operation) ∈ ops
    · rw [if_pos hin, if_pos (hins.mpr hin)]
      exact congrArg some hdata
    · rw [if_neg hin, if_neg (mt hins.mp hin)]
  · intro t₀ hplus
    have hfun : (fun rid' => if rid' = rid then ownRecord db ops tid rid else ownRecord db ops tid rid')
        = ownRecord db ops tid := by
      funext rid'
      split
      · rename_i heq
        rw [heq]
      · rfl
    rw [hfun]
    exact hplus

/-- The transaction marks a row, and notes it. -/
theorem Since.delete (h : Since db₀ T ops db) {tid : TableId} {rid : RecordId} {t : Table D U}
    {r : Row D} (hfresh : ∀ l r₀, db₀.row l = some r₀ → r₀.beginXid ≠ -T) (hT : 0 < T)
    (ht : db.tables tid = some t) (hr : t.file.row rid = some r) (hw : Writable T r)
    (hnot : ¬ (r.beginXid = -T ∧ r.endXid = -T)) :
    Since db₀ T (ops ++ [⟨.delete, (tid, rid)⟩])
      (db.setTable tid { t with file := t.file.bind rid { r with endXid := -T } }) := by
  have hins : (⟨.insert, (tid, rid)⟩ : Operation) ∈ ops ++ [⟨.delete, (tid, rid)⟩] ↔
      ⟨.insert, (tid, rid)⟩ ∈ ops := by simp
  have hdel : (⟨.delete, (tid, rid)⟩ : Operation) ∈ ops ++ [⟨.delete, (tid, rid)⟩] := by simp
  -- the row has not been deleted before
  have hcases : (⟨.delete, (tid, rid)⟩ : Operation) ∉ ops ∧
      RowSince T (ops ++ [⟨.delete, (tid, rid)⟩]) (tid, rid) (db₀.row (tid, rid))
        (some { r with endXid := -T }) := by
    have hrow := h.rows (tid, rid)
    rw [Database.row_of_table ht, hr] at hrow
    generalize hr₀ : db₀.row (tid, rid) = r₀ at hrow
    cases hrow with
    | untouched h1 h2 => exact ⟨h2, .deleted (mt hins.mp h1) hdel hw⟩
    | @restored a h1 h2 hwa => exact ⟨h2, .deleted (r := a) (mt hins.mp h1) hdel hwa⟩
    | inserted h1 h2 => exact ⟨h2, .insertedDeleted (hins.mpr h1) hdel⟩
    | insertedDeleted h1 h2 => exact absurd ⟨rfl, rfl⟩ hnot
    | @deleted a h1 h2 hwa =>
      exfalso
      have hne := hfresh _ a hr₀
      rcases writable_iff.mp hw with ⟨-, h2', -⟩ | ⟨-, h2'⟩ | ⟨-, h2', -⟩
      · exact absurd h2' (by show ¬ 0 < -T; omega)
      · exact hne (by replace h2' : -a.beginXid = T := h2'; omega)
      · exact absurd h2' (by show ¬ 0 ≤ -T; omega)
  refine h.rebind ht hr rfl ?_ (fun l hl => mem_push hl) hins hcases.2
  refine List.pairwise_append.mpr ⟨h.order, List.pairwise_singleton .., ?_⟩
  intro a ha b hb hab
  obtain rfl := List.mem_singleton.mp hb
  rw [if_neg nofun]
  refine ⟨?_, rfl⟩
  obtain ⟨type, l⟩ := a
  obtain rfl : l = (tid, rid) := hab
  cases type with
  | insert => rfl
  | delete => exact absurd ha hcases.1

/-! ## Undoing -/

/-- Of two operations on one row, the second one is a DELETE. -/
theorem Since.order_last {pre : List Operation} {op : Operation} (h : Since db₀ T (pre ++ [op]) db) :
    (⟨.delete, op.loc⟩ : Operation) ∉ pre ∧
      ((⟨.insert, op.loc⟩ : Operation) ∈ pre → op.type = .delete) := by
  have hlast := (List.pairwise_append.mp h.order).2.2
  constructor
  · intro hmem
    have := hlast _ hmem op (by simp) rfl
    rw [if_neg nofun] at this
    cases this.1
  · intro hmem
    have := hlast _ hmem op (by simp) rfl
    rw [if_neg nofun] at this
    exact this.2

/-- The last operation is taken back: an INSERT. -/
theorem Since.undoInsert {pre : List Operation} {tid : TableId} {rid : RecordId}
    (h : Since db₀ T (pre ++ [⟨.insert, (tid, rid)⟩]) db) :
    ∃ t t', db.tables tid = some t ∧ t.deleteRecordAt rid = .ok (.success, t') ∧
      Since db₀ T pre (db.setTable tid t') := by
  obtain ⟨hdel, hins⟩ := h.order_last
  have hin : (⟨.insert, (tid, rid)⟩ : Operation) ∈ pre ++ [⟨.insert, (tid, rid)⟩] := by simp
  -- the operation is the only one on its place: a DELETE behind it would have been undone before
  have hdel' : (⟨.delete, (tid, rid)⟩ : Operation) ∉ pre ++ [⟨.insert, (tid, rid)⟩] := by
    intro hmem
    rcases List.mem_append.mp hmem with hmem | hmem
    · exact hdel hmem
    · cases List.mem_singleton.mp hmem
  have hins' : (⟨.insert, (tid, rid)⟩ : Operation) ∉ pre := fun hmem => nomatch hins hmem
  -- so the row is there as it was inserted, and there was none before the transaction
  obtain ⟨data, hr₀, hr⟩ : ∃ data, db₀.row (tid, rid) = none ∧
      db.row (tid, rid) = some ⟨-T, maxTrxId, data⟩ := by
    have hrow := h.rows (tid, rid)
    generalize hr₀ : db₀.row (tid, rid) = r₀ at hrow
    generalize hr : db.row (tid, rid) = r at hrow
    cases hrow with
    | untouched h1 | restored h1 | deleted h1 => exact absurd hin h1
    | @inserted data => exact ⟨data, rfl, rfl⟩
    | insertedDeleted _ h2 => exact absurd h2 hdel'
  have hrow := hr
  unfold Database.row at hr
  obtain ⟨t, ht, hr⟩ := Option.bind_eq_some_iff.mp hr
  obtain ⟨t₀, ht₀, hplus⟩ := h.table ht
  have hown : ownRecord db (pre ++ [⟨.insert, (tid, rid)⟩]) tid rid = some data := by
    unfold ownRecord
    rw [if_pos hin, hrow]
    rfl
  -- each index has its entry, since the transaction's own rows are entered
  obtain ⟨is, hrun, hall⟩ := @deleteEntries_spec D U data rid t.indexes
    (forall₂_right hplus fun _ _ hi => hi.holds hown)
  refine ⟨t, ⟨t.file.unbind rid, is⟩, ht, ?_, ?_⟩
  · unfold Table.deleteRecordAt
    rw [hr]
    dsimp only
    unfold Table.deleteRecord
    rw [bind_ok _ hrun, hr]
    rfl
  -- without the row and its entries the place is untouched again
  · refine h.change (o := none) ht (List.pairwise_append.mp h.order).1
      (fun l hl type => (mem_push hl type).symm) ?_ ?_ ?_ ?_
    · exact fun rid' hrid => RecordFile.unbind_row_of_ne _ hrid
    · rw [hr₀]
      show RowSince T _ _ none ((t.file.unbind rid).row rid)
      rw [RecordFile.unbind_row_self]
      exact .untouched hins' hdel
    · rw [if_neg hins']
    · intro t₁ hplus₁
      exact forall₂_comp hplus₁ hall fun _ _ _ hi hdel => hi.deleted hdel hown

/-- The last operation is taken back: a DELETE. -/
theorem Since.undoDelete {pre : List Operation} {tid : TableId} {rid : RecordId}
    (h : Since db₀ T (pre ++ [⟨.delete, (tid, rid)⟩]) db) :
    ∃ t r, db.tables tid = some t ∧ t.file.row rid = some r ∧ r.endXid = -T ∧
      Since db₀ T pre (db.setTable tid
        { t with file := t.file.bind rid { r with endXid := maxTrxId } }) := by
  have hdel := h.order_last.1
  have hin : (⟨.delete, (tid, rid)⟩ : Operation) ∈ pre ++ [⟨.delete, (tid, rid)⟩] := by simp
  have hins : (⟨.insert, (tid, rid)⟩ : Operation) ∈ pre ↔
      ⟨.insert, (tid, rid)⟩ ∈ pre ++ [⟨.delete, (tid, rid)⟩] := by simp
  obtain ⟨r, hr, hend, hback⟩ : ∃ r, db.row (tid, rid) = some r ∧ r.endXid = -T ∧
      RowSince T pre (tid, rid) (db₀.row (tid, rid)) (some { r with endXid := maxTrxId }) := by
    have hrow := h.rows (tid, rid)
    generalize hr₀ : db₀.row (tid, rid) = r₀ at hrow
    generalize hr : db.row (tid, rid) = r at hrow
    cases hrow with
    | untouched _ h2 | restored _ h2 | inserted _ h2 => exact absurd hin h2
    | insertedDeleted h1 => exact ⟨_, rfl, rfl, .inserted (hins.mpr h1) hdel⟩
    | @deleted a h1 h2 hw => exact ⟨_, rfl, rfl, .restored (r := a) (mt hins.mp h1) hdel hw⟩
  unfold Database.row at hr
  obtain ⟨t, ht, hr⟩ := Option.bind_eq_some_iff.mp hr
  exact ⟨t, r, ht, hr, hend, h.rebind ht hr rfl (List.pairwise_append.mp h.order).1
    (fun l hl type => (mem_push hl type).symm) hins hback⟩

/-- One round of the loop of `rollback`. -/
theorem Since.undo {pre operations pending : List Operation} {op : Operation}
    (h : Since db₀ T (pre ++ [op]) db)
    (hx : db.trx T = some ⟨operations, op :: pending, .rollingBack⟩) :
    ∃ db', db.rollbackOperation T = .ok (.success, db') ∧ Since db₀ T pre db' ∧
      db'.trx T = some ⟨operations, pending, .rollingBack⟩ ∧ db'.currentTrxId = db.currentTrxId := by
  obtain ⟨type, tid, rid⟩ := op
  have hfind : ∀ {t}, db.tables tid = some t → db.findTable tid = .ok t := by
    intro t ht
    unfold Database.findTable
    rw [ht]
  unfold Database.rollbackOperation
  rw [hx]
  dsimp only
  -- an insert is undone by taking the row out, a delete by writing its mark back
  cases type with
  | insert =>
    obtain ⟨t, t', ht, hrun, h'⟩ := h.undoInsert
    refine ⟨(db.setTable tid t').setTrx T ⟨operations, pending, .rollingBack⟩, ?_,
      ⟨h'.order, h'.rows, h'.tables⟩, if_pos rfl, rfl⟩
    rw [bind_ok _ (hfind ht)]
    dsimp only
    rw [bind_ok _ hrun]
    rfl
  | delete =>
    obtain ⟨t, r, ht, hr, hend, h'⟩ := h.undoDelete
    refine ⟨(db.setTable tid _).setTrx T ⟨operations, pending, .rollingBack⟩, ?_,
      ⟨h'.order, h'.rows, h'.tables⟩, if_pos rfl, rfl⟩
    rw [bind_ok _ (hfind ht)]
    dsimp only
    rw [hr]
    dsimp only
    rw [if_neg (not_not.mpr hend)]
    rfl

/-- The whole loop. -/
theorem Since.undoAll {operations : List Operation} : ∀ {pending : List Operation}
    {db : Database D U}, Since db₀ T pending.reverse db →
    db.trx T = some ⟨operations, pending, .rollingBack⟩ →
    ∃ rcs db', runOps Database.step db (List.replicate pending.length (.rollbackOperation T))
        = .ok (rcs, db') ∧ Since db₀ T [] db' ∧
      db'.trx T = some ⟨operations, [], .rollingBack⟩ ∧ db'.currentTrxId = db.currentTrxId
  | [], db, h, hx => ⟨[], db, rfl, h, hx, rfl⟩
  | op :: pending, db, h, hx => by
    rw [List.reverse_cons] at h
    obtain ⟨db₁, hrun, h₁, hx₁, hc₁⟩ := h.undo hx
    obtain ⟨rcs, db', hrest, h', hx', hc'⟩ := h₁.undoAll hx₁
    exact ⟨_, db', runOps_cons_ok hrun hrest, h', hx', hc'.trans hc₁⟩

end Since

/-! ## Statements -/

/-- The database is the same for a new transaction: the rows it sees, with their values, and the entries
    of the indexes. -/
structure Restored (db₀ db : Database D U) : Prop where
  rows : ∀ l data,
    (∃ r, db₀.row l = some r ∧ r.data = data ∧ Visible (nextTrxId db₀.currentTrxId) r) ↔
    ∃ r, db.row l = some r ∧ r.data = data ∧ Visible (nextTrxId db.currentTrxId) r
  indexes : ∀ tid, Option.Rel (fun t₀ t => List.Forall₂ SameEntries t₀.indexes t.indexes)
    (db₀.tables tid) (db.tables tid)

/-- The transaction can roll back, and afterwards the database is what it was. -/
def RollsBack (db₀ : Database D U) (T : Int) (db : Database D U) : Prop :=
  ∃ x rcs db', db.trx T = some x ∧
    runOps Database.step db
      (.rollback T :: List.replicate x.operations.length (.rollbackOperation T)) = .ok (rcs, db') ∧
    Restored db₀ db'

/-- The action is an INSERT, DELETE or UPDATE of the transaction `T`. -/
def StatementOf (T : Int) : Action D U → Prop
  | .insertRecord S .. => S = T
  | .deleteRecord S .. => S = T
  | .update S .. => S = T
  | _ => False

/-- INSERT is not refused by the first index, DELETE does not take up a row once more that the
    transaction has inserted and deleted, and UPDATE takes up no row. -/
def KeepsRollback (T : Int) (db : Database D U) (a : Action D U) : Prop :=
  StatementOf T a ∧ match a with
    | .insertRecord S tid data p => ∀ t, db.tables tid = some t →
      t.Admits (p.place 0) ⟨-S, maxTrxId, data⟩
    | .deleteRecord S tid rid =>
      ∀ r, db.row (tid, rid) = some r → ¬ (r.beginXid = -S ∧ r.endXid = -S)
    | .update S tid stmt _ => ∀ l r, ¬ db.UpdateSelects S tid stmt l r
    | _ => True

section Statements

variable {db₀ db db' : Database D U} {T : Int}

/-- An UPDATE that takes up no row does nothing. -/
theorem openUpdate_none {t t' : Table D U} {stmt : UpdateStmt D} {p : Placement D} {rc : RC}
    (hnone : ∀ o, o ∉ stmt.selected T t) (hrun : openUpdate t T stmt p = .ok (rc, t')) : t' = t := by
  unfold openUpdate at hrun
  cases hscan : scanRecords T t.file stmt.select (stmt.access.rids t.file) with
  | mk rc₀ oldRecords =>
  rw [hscan] at hrun
  dsimp only at hrun
  split at hrun
  · exact (Prod.mk.inj (Except.ok.inj hrun)).2.symm
  · rename_i hrc
    obtain rfl := not_not.mp hrc
    have hsel : stmt.selected T t = oldRecords := by
      unfold UpdateStmt.selected
      rw [hscan]
    obtain rfl : oldRecords = [] := List.eq_nil_iff_forall_not_mem.mpr fun o => hsel ▸ hnone o
    exact (Prod.mk.inj (Except.ok.inj hrun)).2.symm

/-- What holds while the transaction runs. -/
structure Running (db₀ : Database D U) (T : Int) (db : Database D U) : Prop where
  since : ∃ ops, Since db₀ T ops db ∧ db.trx T = some ⟨ops, ops, .active⟩
  counter : db.currentTrxId = T

theorem Running.setTable_same {tid : TableId} {t t' : Table D U} (h : Running db₀ T db)
    (ht : db.tables tid = some t) (hfile : t'.file = t.file)
    (hsame : List.Forall₂ SameEntries t.indexes t'.indexes) : Running db₀ T (db.setTable tid t') := by
  obtain ⟨⟨ops, hsince, hx⟩, hc⟩ := h
  exact ⟨⟨ops, hsince.same ht hfile hsame, hx⟩, hc⟩

theorem sameEntries_refl {is : List (TableIndex D U)} (h : ∀ i ∈ is, i.Sound) :
    List.Forall₂ SameEntries is is :=
  List.forall₂_same.mpr fun i hi => (h i hi).choose_spec.sameEntries

/-- **Step.** -/
theorem Running.step {a : Action D U} {rc : RC} (h : Running db₀ T db) (hT : 0 < T)
    (hfresh : ∀ l r₀, db₀.row l = some r₀ → r₀.beginXid ≠ -T) (hok : KeepsRollback T db a)
    (hstep : db.step a = .ok (rc, db')) : Running db₀ T db' := by
  obtain ⟨hown, hok⟩ := hok
  have hrunning := h
  obtain ⟨⟨ops, hsince, hx⟩, hc⟩ := h
  -- by the statement; each failure leaves the database as it was
  cases a with
  | insertRecord S tid data p =>
    obtain rfl : S = T := hown
    replace hstep : db.insertRecord S tid data p = .ok (rc, db') := hstep
    unfold Database.insertRecord at hstep
    obtain ⟨x, hx', hstep⟩ := ok_of_bind hstep
    obtain ⟨t, ht, hstep⟩ := ok_of_bind hstep
    replace ht := Database.findTable_ok ht
    obtain rfl := Option.some.inj (hx.symm.trans (Database.activeTrx_ok hx').1)
    have hsound := hsince.sound tid t ht
    -- the insertion by its outcome; a refusal by the first index is what the condition excludes
    cases hsound.insertRecord (p.place 0) ⟨-S, maxTrxId, data⟩ with
    | refused hp hrun =>
      rw [bind_ok _ hrun] at hstep
      dsimp only at hstep
      split at hstep
      · rename_i heq
        exact absurd rfl (p.refused 0 _ _ hp)
      · obtain ⟨-, rfl⟩ := Prod.mk.inj (Except.ok.inj hstep)
        exact hrunning.setTable_same ht rfl (sameEntries_refl hsound)
    | stored hp hall hrun =>
      rw [bind_ok _ hrun] at hstep
      obtain ⟨-, rfl⟩ := Prod.mk.inj (Except.ok.inj hstep)
      have h' := hsince.insert ht (p.free 0 _ _ hp) hall
      exact ⟨⟨_, ⟨h'.order, h'.rows, h'.tables⟩, if_pos rfl⟩, hc⟩
    | rejectedLater hp hi hnot hsame hrun =>
      rw [bind_ok _ hrun] at hstep
      obtain ⟨-, rfl⟩ := Prod.mk.inj (Except.ok.inj hstep)
      exact hrunning.setTable_same ht (RecordFile.unbind_bind (p.free 0 _ _ hp) _) hsame
    | rejectedFirst hp hi hrej => exact absurd hrej (hok t ht _ _ _ hp hi)
  | deleteRecord S tid rid =>
    obtain rfl : S = T := hown
    replace hstep : db.deleteRecord S tid rid = .ok (rc, db') := hstep
    unfold Database.deleteRecord at hstep
    obtain ⟨x, hx', hstep⟩ := ok_of_bind hstep
    obtain ⟨t, ht, hstep⟩ := ok_of_bind hstep
    replace ht := Database.findTable_ok ht
    obtain rfl := Option.some.inj (hx.symm.trans (Database.activeTrx_ok hx').1)
    -- a row that is not there or cannot be written is not deleted
    dsimp only at hstep
    split at hstep
    · obtain ⟨-, rfl⟩ := Prod.mk.inj (Except.ok.inj hstep)
      exact hrunning
    · rename_i r hr
      split at hstep
      · obtain ⟨-, rfl⟩ := Prod.mk.inj (Except.ok.inj hstep)
        exact hrunning
      · rename_i hw
        obtain ⟨-, rfl⟩ := Prod.mk.inj (Except.ok.inj hstep)
        have h' := hsince.delete hfresh hT ht hr (not_not.mp hw)
          (hok r (by rw [Database.row_of_table ht, hr]))
        exact ⟨⟨_, ⟨h'.order, h'.rows, h'.tables⟩, if_pos rfl⟩, hc⟩
  | update S tid stmt p =>
    obtain rfl : S = T := hown
    obtain ⟨x, -, hstep⟩ := ok_of_bind hstep
    obtain ⟨t, ht, hstep⟩ := ok_of_bind hstep
    obtain ⟨⟨rc', t'⟩, hrun, hstep⟩ := ok_of_bind hstep
    replace ht := Database.findTable_ok ht
    obtain ⟨-, rfl⟩ := Prod.mk.inj (Except.ok.inj hstep)
    -- the statement takes up no row
    obtain rfl := openUpdate_none
      (fun o ho => hok (tid, o.1) o.2 ⟨t, ht, rfl, ho⟩) hrun
    exact hrunning.setTable_same ht rfl (sameEntries_refl (hsince.sound tid t' ht))
  | _ => exact hown.elim

/-- At the start nothing has been done. -/
theorem Running.start (hsound : Sound db₀) (hnext : nextTrxId db₀.currentTrxId = T) :
    Running db₀ T db₀.start := by
  subst hnext
  refine ⟨⟨[], ⟨.nil, fun l => ?_, fun tid => ?_⟩, if_pos rfl⟩, rfl⟩
  · exact .untouched List.not_mem_nil List.not_mem_nil
  · show Option.Rel _ (db₀.tables tid) (db₀.tables tid)
    cases ht : db₀.tables tid with
    | none => exact .none
    | some t =>
      refine .some (List.forall₂_same.mpr fun i hi => ?_)
      have hnone : ownRecord db₀.start [] tid = fun _ => none := rfl
      rw [hnone]
      exact .nothing (hsound tid t ht i hi)

/-- When everything is undone, a new transaction finds what it would have found before. -/
theorem Since.restored {c : Int} (h : Since db₀ (c + 1) [] db) (hrange : InRange db₀.versions)
    (hc₀ : db₀.currentTrxId = c) (hc : db.currentTrxId = c + 1) (hlt : c + 2 < maxTrxId) :
    Restored db₀ db := by
  have hnonneg : 0 ≤ c := hc₀ ▸ hrange.signs.nonneg
  have hnext₀ : nextTrxId db₀.currentTrxId = c + 1 := by
    rw [hc₀, nextTrxId_eq hnonneg (by omega)]
  have hnext : nextTrxId db.currentTrxId = c + 1 + 1 := by
    rw [hc, nextTrxId_eq (by omega) (by omega)]
  -- the rows: by what the transaction has done to them, which by now is nothing or undone
  constructor
  · intro l data
    rw [hnext₀, hnext]
    have hrow := h.rows l
    generalize hr₀ : db₀.row l = r₀ at hrow
    generalize hr : db.row l = r at hrow
    -- all marks are from before the transaction, so a new transaction sees what an earlier new one saw
    have hfields : ∀ a, db₀.row l = some a → (-c ≤ a.beginXid ∧ a.beginXid ≤ c) ∧
        (a.endXid = maxTrxId ∨ (-c ≤ a.endXid ∧ a.endXid ≤ c)) := by
      intro a ha
      have hb : -db₀.currentTrxId ≤ a.beginXid ∧ a.beginXid ≤ db₀.currentTrxId :=
        hrange.beginXid l a ha
      have he : a.endXid = maxTrxId ∨ (-db₀.currentTrxId ≤ a.endXid ∧ a.endXid ≤ db₀.currentTrxId) :=
        hrange.endXid l a ha
      rw [hc₀] at hb he
      exact ⟨hb, he⟩
    cases hrow with
    | untouched =>
      refine exists_congr fun a => and_congr_right fun ha => and_congr_right fun _ => ?_
      have := hfields a (hr₀.trans ha)
      rw [visible_iff, visible_iff]
      omega
    | @restored a _ _ hw =>
      have hf := hfields a hr₀
      rw [writable_iff] at hw
      have hv : Visible (c + 1) a ↔ Visible (c + 1 + 1) { a with endXid := maxTrxId } := by
        rw [visible_iff, visible_iff]
        dsimp only
        have hmax : maxTrxId = 2147483647 := rfl
        omega
      constructor
      · rintro ⟨r₁, hr₁, hdata, hvis⟩
        obtain rfl := Option.some.inj hr₁
        exact ⟨_, rfl, hdata, hv.mp hvis⟩
      · rintro ⟨r₁, hr₁, hdata, hvis⟩
        obtain rfl := Option.some.inj hr₁
        exact ⟨a, rfl, hdata, hv.mpr hvis⟩
    | inserted h1 | insertedDeleted h1 | deleted _ h1 => cases h1
  -- the entries: none is that of a row of the transaction's own
  · intro tid
    have htables := h.tables tid
    generalize db₀.tables tid = o₀ at htables
    generalize db.tables tid = o at htables
    cases htables with
    | none => exact .none
    | some hall => exact .some (hall.imp fun _ _ hplus => hplus.sameEntries fun _ => rfl)

end Statements

/-- A database with one table. -/
def oneTable : Database Int Int := Database.empty.setTable 0 ⟨.empty, []⟩

theorem reachable_oneTable : Reachable Database.step (fun db a => CountsUp db a ∧ OrderedKeys a) .empty oneTable :=
  Reachable.init.next (.createTable 0) ⟨trivial, trivial⟩ rfl

/-- The table with a unique index and a committed row 5. -/
def keyedTable : Database Int Int :=
  match runOps Database.step oneTable [.createIndex (-1) 0 (intIndex true), .start, .insertRecord 1 0 5 firstSlots,
    .commit 1, .commitOperation 1] with
  | .ok (_, db) => db
  | .error _ => oneTable

theorem reachable_keyedTable :
    Reachable Database.step (fun db a => CountsUp db a ∧ OrderedKeys a) .empty keyedTable := by
  have h₁ := reachable_oneTable.next (.createIndex (-1) 0 (intIndex true)) ⟨trivial, Int.instTransOrd⟩ rfl
  have h₂ := h₁.next .start ⟨by show (0 : Int) + 1 < maxTrxId; decide, trivial⟩ rfl
  have h₃ := h₂.next (.insertRecord 1 0 5 firstSlots) ⟨trivial, trivial⟩ rfl
  have h₄ := h₃.next (.commit 1) ⟨by show (1 : Int) + 1 < maxTrxId; decide, trivial⟩ rfl
  exact h₄.next (.commitOperation 1) ⟨trivial, trivial⟩ rfl

end Miniob.Trx
