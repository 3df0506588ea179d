/-
  `Table::insert_record` and `Table::delete_record`: what they do to the record file, whatever the
  indexes hold, and when a rejected insertion leaves no trace.

  `insert_entry_of_indexes` takes back what it has inserted; `insert_record` then lets
  `delete_entry_of_indexes` run over all indexes once more.  That second pass stops at the first
  index that has no equal entry.  So it does nothing, unless the very first index is the one that
  has refused the entry: then it deletes the entry that stood in the way.
-/
import Miniob.Db.Entries

namespace Miniob.Db

open Miniob.Common Miniob.Index Miniob.Storage TableIndex

variable {D U : Type}

/-! ## The record file -/

/-- What an insertion does to the record file. -/
inductive FileInserted (f f' : RecordFile D) (r : Row D) : RC → Option RecordId → Prop where
  | stored {rid : RecordId} : f.row rid = none → f' = f.bind rid r →
      FileInserted f f' r .success (some rid)
  | rejected {rc : RC} {rid : Option RecordId} : rc ≠ .success → f' = f → FileInserted f f' r rc rid

namespace Table

variable {t t' : Table D U} {r : Row D} {rc : RC} {rid : RecordId}

/-- What an insertion does to the record file. -/
theorem insertRecord_file {p : Placement D} {n : Nat} {rid : Option RecordId}
    (h : t.insertRecord (p.place n) r = .ok (rc, rid, t')) :
    FileInserted t.file t'.file r rc rid := by
  unfold insertRecord at h
  split at h
  · rename_i rc' hp
    obtain ⟨rfl, h'⟩ := Prod.mk.inj (Except.ok.inj h)
    obtain ⟨rfl, rfl⟩ := Prod.mk.inj h'
    exact .rejected (p.refused n _ _ hp) rfl
  · rename_i rid' hp
    have hfree := p.free n _ _ hp
    obtain ⟨⟨rc', indexes⟩, -, h⟩ := ok_of_bind h
    dsimp only at h
    split at h
    · rename_i hrc
      obtain ⟨⟨rc2, indexes'⟩, -, h⟩ := ok_of_bind h
      obtain ⟨rfl, h'⟩ := Prod.mk.inj (Except.ok.inj h)
      obtain ⟨rfl, rfl⟩ := Prod.mk.inj h'
      exact .rejected hrc (RecordFile.unbind_bind hfree r)
    · rename_i hrc
      obtain ⟨rfl, h'⟩ := Prod.mk.inj (Except.ok.inj h)
      obtain ⟨rfl, rfl⟩ := Prod.mk.inj h'
      rw [not_not.mp hrc]
      exact .stored hfree rfl

/-- What a deletion does to the record file. -/
theorem deleteRecord_file {record : D} (h : t.deleteRecord record rid = .ok (rc, t')) :
    (rc = .recordNotExist ∧ t.file.row rid = none ∧ t'.file = t.file) ∨
    rc = .success ∧ (∃ r, t.file.row rid = some r) ∧ t'.file = t.file.unbind rid := by
  unfold deleteRecord at h
  obtain ⟨indexes, -, h⟩ := ok_of_bind h
  split at h
  · rename_i hrow
    obtain ⟨rfl, rfl⟩ := Prod.mk.inj (Except.ok.inj h)
    exact Or.inl ⟨rfl, hrow, rfl⟩
  · rename_i r hrow
    obtain ⟨rfl, rfl⟩ := Prod.mk.inj (Except.ok.inj h)
    exact Or.inr ⟨rfl, ⟨r, hrow⟩, rfl⟩

/-- A record that is stored is deleted. -/
theorem deleteRecord_stored {record : D} {r : Row D} (hr : t.file.row rid = some r)
    (h : t.deleteRecord record rid = .ok (rc, t')) : rc = .success ∧ t'.file = t.file.unbind rid := by
  rcases deleteRecord_file h with ⟨-, hnone, -⟩ | ⟨rfl, -, hfile⟩
  · cases hr.symm.trans hnone
  · exact ⟨rfl, hfile⟩

/-- What a deletion does to it. -/
theorem deleteRecordAt_file (h : t.deleteRecordAt rid = .ok (rc, t')) :
    (rc = .recordNotExist ∧ t.file.row rid = none ∧ t'.file = t.file) ∨
    rc = .success ∧ (∃ r, t.file.row rid = some r) ∧ t'.file = t.file.unbind rid := by
  unfold deleteRecordAt at h
  split at h
  · rename_i hrow
    obtain ⟨rfl, rfl⟩ := Prod.mk.inj (Except.ok.inj h)
    exact Or.inl ⟨rfl, hrow, rfl⟩
  · exact deleteRecord_file h

/-- The faults of a deletion come from the index trees or from its own assertion. -/
theorem deleteRecordAt_error {fault : Fault} (h : t.deleteRecordAt rid = .error fault) :
    fault ≠ .rollback := by
  have hindex : ∀ {i : TableIndex D U} {record : D} {fault : Fault},
      i.deleteEntry record rid = .error fault → fault ≠ .rollback := by
    intro i record fault hi
    unfold TableIndex.deleteEntry at hi
    split at hi
    · cases hi
    · obtain rfl := Except.error.inj hi
      rintro ⟨⟩
  have hloop : ∀ {record : D} {is : List (TableIndex D U)} {fault : Fault},
      deleteEntries record rid is = .error fault → fault ≠ .rollback := by
    intro record is
    induction is with
    | nil =>
      intro fault hi
      cases hi
    | cons i rest ih =>
      intro fault hi
      rw [deleteEntries] at hi
      rcases error_of_bind hi with hi | ⟨⟨rc, i'⟩, -, hi⟩
      · exact hindex hi
      · dsimp only at hi
        split at hi
        · obtain rfl := Except.error.inj hi
          rintro ⟨⟩
        · rcases error_of_bind hi with hi | ⟨_, -, hi⟩
          · exact ih hi
          · cases hi
  unfold deleteRecordAt at h
  split at h
  · cases h
  · unfold deleteRecord at h
    rcases error_of_bind h with h | ⟨_, -, h⟩
    · exact hloop h
    · split at h <;> cases h

/-! ## Sound indexes -/

/-- All index trees are sound. -/
def Sound (t : Table D U) : Prop := ∀ i ∈ t.indexes, i.Sound

/-- The second pass after a rejected insertion. -/
theorem insertRecord_rejected {p : RecordFile D → Except RC RecordId} {rc' : RC}
    {indexes : List (TableIndex D U)} (hp : p t.file = .ok rid)
    (hins : insertEntryOfIndexes r.data rid [] t.indexes = .ok (rc', indexes)) (hrc : rc' ≠ .success)
    (hdel : ∃ rc2 indexes', deleteEntryOfIndexes r.data rid false .success indexes
      = .ok (rc2, indexes') ∧ t' = ⟨(t.file.bind rid r).unbind rid, indexes'⟩) :
    t.insertRecord p r = .ok (rc', some rid, t') := by
  obtain ⟨rc2, indexes', hdel, rfl⟩ := hdel
  unfold insertRecord
  rw [hp]
  dsimp only
  rw [bind_ok _ hins]
  dsimp only
  rw [if_pos hrc, bind_ok _ hdel]
  rfl

theorem insertRecord_stored {p : RecordFile D → Except RC RecordId}
    {indexes : List (TableIndex D U)} (hp : p t.file = .ok rid)
    (hins : insertEntryOfIndexes r.data rid [] t.indexes = .ok (.success, indexes)) :
    t.insertRecord p r = .ok (.success, some rid, ⟨t.file.bind rid r, indexes⟩) := by
  unfold insertRecord
  rw [hp]
  dsimp only
  rw [bind_ok _ hins]
  rfl

/-- What becomes of the indexes of a table with sound indexes. -/
inductive Inserts (t : Table D U) (p : RecordFile D → Except RC RecordId) (r : Row D) : Prop where
  /-- The file has no room. -/
  | refused {rc : RC} : p t.file = .error rc → t.insertRecord p r = .ok (rc, none, t) →
      Inserts t p r
  /-- The record and all its entries are in. -/
  | stored {rid : RecordId} {indexes : List (TableIndex D U)} : p t.file = .ok rid →
      List.Forall₂ (Inserted r.data rid) t.indexes indexes →
      t.insertRecord p r = .ok (.success, some rid, ⟨t.file.bind rid r, indexes⟩) → Inserts t p r
  /-- An index after the first one refuses the entry: every index has its old entries. -/
  | rejectedLater {rid : RecordId} {i : TableIndex D U} {rest indexes : List (TableIndex D U)} :
      p t.file = .ok rid → t.indexes = i :: rest → ¬ i.Rejects r.data rid →
      List.Forall₂ SameEntries t.indexes indexes →
      t.insertRecord p r = .ok (.recordDuplicateKey, some rid,
        ⟨(t.file.bind rid r).unbind rid, indexes⟩) → Inserts t p r
  /-- The first index refuses the entry and loses the one it has, and those behind it may lose one, too. -/
  | rejectedFirst {rid : RecordId} {i i' : TableIndex D U} {rest rest' : List (TableIndex D U)} :
      p t.file = .ok rid → t.indexes = i :: rest → i.Rejects r.data rid → ¬ SameEntries i i' →
      SecondPass r.data rid t.indexes (i' :: rest') →
      t.insertRecord p r = .ok (.recordDuplicateKey, some rid,
        ⟨(t.file.bind rid r).unbind rid, i' :: rest'⟩) → Inserts t p r

/-- **`insert_record`.** -/
theorem Sound.insertRecord (h : t.Sound) (p : RecordFile D → Except RC RecordId) (r : Row D) :
    t.Inserts p r := by
  cases hp : p t.file with
  | error rc =>
    refine .refused hp ?_
    unfold Table.insertRecord
    rw [hp]
  | ok rid =>
    rcases @insertEntryOfIndexes_spec D U r.data rid _ _ _ .nil h with
      ⟨indexes, hins, hall⟩ | ⟨front, i, back, indexes, hsplit, hfront, hrej, hins, hsame⟩
    · exact .stored hp hall (insertRecord_stored hp hins)
    · replace hsame : List.Forall₂ SameEntries t.indexes indexes := hsame
      cases front with
      | cons j front =>
        -- the first index has not refused the entry and does not hold it
        have hj := hfront j (by simp)
        rw [hsplit] at hsame
        cases hsame with
        | cons hjs hrest =>
          rename_i j' rest'
          obtain ⟨es, hes, hes'⟩ := hjs.2
          have hnot : ¬ j'.Rejects r.data rid := by
            rw [hes'.rejects_iff, hjs.1.cmp, hjs.1.entry, ← hes.rejects_iff]
            exact hj
          have hdel : j'.deleteEntry r.data rid = .ok (.recordNotExist, j') := by
            rcases hes'.deleteEntry r.data rid with ⟨-, hdel⟩ | ⟨e, _, _, he, heq, -⟩
            · exact hdel
            · exact absurd ((hes'.rejects_iff _ _).mpr ⟨e, he, heq⟩) hnot
          refine .rejectedLater hp hsplit hj ?_ (insertRecord_rejected hp hins nofun
            ⟨.recordNotExist, j' :: rest', ?_, rfl⟩)
          · rw [hsplit]
            exact .cons hjs hrest
          · rw [deleteEntryOfIndexes, bind_ok _ hdel]
            rfl
      | nil =>
        rw [List.nil_append] at hsplit
        obtain ⟨rc2, indexes', hdel, hpass⟩ := @deleteEntryOfIndexes_spec D U r.data rid indexes .success
          (keeps_sound (keeps_of_sameEntries hsame))
        have hpass₀ := hpass.of_same hsame
        have hrun := insertRecord_rejected hp hins nofun ⟨rc2, indexes', hdel, rfl⟩
        -- the first index has an equal key, so the pass does not stop before it
        rw [hsplit] at hpass₀
        cases hpass₀ with
        | stop hhead _ => exact absurd hrej (hhead i rfl)
        | removed hi hrest =>
          rename_i i' rest'
          refine .rejectedFirst hp hsplit hrej ?_ (hsplit ▸ .removed hi hrest) hrun
          intro hsameFirst
          obtain ⟨-, es, es', e, hes, hes', he, -, hmem⟩ := hi
          have heq : es = es' := (hsameFirst.holds hes).unique hes'
          exact ((hmem e).mp (heq ▸ he)).2 rfl

/-- With sound indexes an insertion always answers. -/
theorem Sound.insertRecord_ok (h : t.Sound) (p : RecordFile D → Except RC RecordId) (r : Row D) :
    ∃ rc rid t', t.insertRecord p r = .ok (rc, rid, t') ∧ t'.Sound := by
  cases h.insertRecord p r with
  | refused _ hrun => exact ⟨_, _, t, hrun, h⟩
  | stored _ hall hrun =>
    refine ⟨_, _, _, hrun, keeps_sound (hall.imp fun _ _ hi => ⟨hi.1, ?_⟩)⟩
    obtain ⟨-, _, es', -, hes', -⟩ := hi
    exact ⟨es', hes'⟩
  | rejectedLater _ _ _ hsame hrun =>
    exact ⟨_, _, _, hrun, keeps_sound (keeps_of_sameEntries hsame)⟩
  | rejectedFirst _ _ _ _ hpass hrun => exact ⟨_, _, _, hrun, keeps_sound hpass.keeps⟩

theorem Sound.insertRecord_sound {p : RecordFile D → Except RC RecordId} {rid : Option RecordId}
    (h : t.Sound) (hrun : t.insertRecord p r = .ok (rc, rid, t')) : t'.Sound := by
  obtain ⟨rc', rid', t'', hrun', h'⟩ := h.insertRecord_ok p r
  rw [hrun] at hrun'
  obtain ⟨-, h''⟩ := Prod.mk.inj (Except.ok.inj hrun')
  rwa [(Prod.mk.inj h'').2]

/-- A record that is stored is in every index. -/
theorem Sound.insertRecord_inserted {p : Placement D} {n : Nat} {rid : Option RecordId} (h : t.Sound)
    (hrun : t.insertRecord (p.place n) r = .ok (.success, rid, t')) :
    ∃ rid', rid = some rid' ∧ List.Forall₂ (Inserted r.data rid') t.indexes t'.indexes := by
  cases h.insertRecord (p.place n) r with
  | refused hp hrun' =>
    cases hrun.symm.trans hrun'
    exact absurd rfl (p.refused n _ _ hp)
  | stored _ hall hrun' =>
    cases hrun.symm.trans hrun'
    exact ⟨_, rfl, hall⟩
  | rejectedLater _ _ _ _ hrun' => cases hrun.symm.trans hrun'
  | rejectedFirst _ _ _ _ _ hrun' => cases hrun.symm.trans hrun'

/-- A record that is refused: the file has no room, or the second pass runs over the indexes. -/
theorem Sound.insertRecord_secondPass {p : RecordFile D → Except RC RecordId} {rid : Option RecordId} (h : t.Sound)
    (hrun : t.insertRecord p r = .ok (rc, rid, t')) (hrc : rc ≠ .success) :
    (∃ rc', p t.file = .error rc' ∧ t'.indexes = t.indexes) ∨
      ∃ rid', p t.file = .ok rid' ∧ SecondPass r.data rid' t.indexes t'.indexes := by
  cases h.insertRecord p r with
  | refused hp hrun' =>
    cases hrun.symm.trans hrun'
    exact Or.inl ⟨_, hp, rfl⟩
  | stored _ _ hrun' =>
    cases hrun.symm.trans hrun'
    exact absurd rfl hrc
  | rejectedLater hp hi hnot hsame hrun' =>
    cases hrun.symm.trans hrun'
    refine Or.inr ⟨_, hp, .stop (fun j hj => ?_) hsame⟩
    rw [hi] at hj
    obtain rfl := Option.some.inj hj
    exact hnot
  | rejectedFirst hp _ _ _ hpass hrun' =>
    cases hrun.symm.trans hrun'
    exact Or.inr ⟨_, hp, hpass⟩

/-- A deletion keeps the indexes sound. -/
theorem Sound.deleteRecord_sound {record : D} (h : t.Sound)
    (hrun : t.deleteRecord record rid = .ok (rc, t')) : t'.Sound := by
  unfold deleteRecord at hrun
  obtain ⟨indexes, hdel, hrun⟩ := ok_of_bind hrun
  have hsound := keeps_sound (deleteEntries_keeps h hdel)
  split at hrun
  · obtain ⟨-, rfl⟩ := Prod.mk.inj (Except.ok.inj hrun)
    exact hsound
  · obtain ⟨-, rfl⟩ := Prod.mk.inj (Except.ok.inj hrun)
    exact hsound

end Table

/-! ## Rejected insertions -/

/-- A call on a table. -/
inductive TableOp (D : Type) where
  | insertRecord (p : Placement D) (r : Row D)
  | deleteRecord (rid : RecordId)

def TableOp.apply (t : Table D U) : TableOp D → Except Fault (RC × Table D U)
  | .insertRecord p r => do
    let (rc, _, t) ← t.insertRecord (p.place 0) r
    return (rc, t)
  | .deleteRecord rid => t.deleteRecordAt rid

/-- The insertion comes to an end, and if it returns an error the record file and every index hold
    what they held before. -/
def InsertAtomic (t : Table D U) (p : Placement D) (r : Row D) : Prop :=
  ∃ rc rid t', t.insertRecord (p.place 0) r = .ok (rc, rid, t') ∧
    (rc ≠ .success → t'.file = t.file ∧ List.Forall₂ SameEntries t.indexes t'.indexes)

/-- The same for one table. -/
theorem Table.Sound.atomic_iff {t : Table D U} (h : t.Sound) (p : Placement D) (r : Row D) :
    InsertAtomic t p r ↔ ∀ rid i rest, p.place 0 t.file = .ok rid → t.indexes = i :: rest →
      ¬ i.Rejects r.data rid := by
  cases h.insertRecord (p.place 0) r with
  | refused hp hrun =>
    refine iff_of_true ⟨_, _, t, hrun, fun _ => ⟨rfl, ?_⟩⟩ fun rid i rest hp' => ?_
    · exact List.forall₂_same.mpr fun i hi => (h i hi).choose_spec.sameEntries
    · rw [hp] at hp'
      cases hp'
  | stored hp hall hrun =>
    refine iff_of_true ⟨_, _, _, hrun, fun hrc => absurd rfl hrc⟩ fun rid i rest hp' hi => ?_
    obtain rfl := Except.ok.inj (hp.symm.trans hp')
    rw [hi] at hall
    cases hall with
    | cons hins _ =>
      obtain ⟨-, _, _, _, _, hnot, -⟩ := hins
      exact hnot
  | rejectedLater hp hi hnot hsame hrun =>
    refine iff_of_true ⟨_, _, _, hrun, fun _ => ⟨?_, hsame⟩⟩ fun rid i rest hp' hi' => ?_
    · exact RecordFile.unbind_bind (p.free 0 _ _ hp) r
    · obtain rfl := Except.ok.inj (hp.symm.trans hp')
      obtain ⟨rfl, -⟩ := List.cons.inj (hi.symm.trans hi')
      exact hnot
  | rejectedFirst hp hi hrej hne _ hrun =>
    refine iff_of_false ?_ fun hall => hall _ _ _ hp hi hrej
    rintro ⟨rc, rid, t', hrun', hatomic⟩
    obtain ⟨rfl, h'⟩ := Prod.mk.inj (Except.ok.inj (hrun.symm.trans hrun'))
    obtain ⟨-, rfl⟩ := Prod.mk.inj h'
    have hsame := (hatomic nofun).2
    rw [hi] at hsame
    cases hsame with
    | cons hsame _ => exact hne hsame

theorem range_zero : (0 : Int) ≤ 0 ∧ (0 : Int) < 2 ^ 31 := by decide
theorem range_one : (0 : Int) ≤ 1 ∧ (1 : Int) < 2 ^ 31 := by decide
theorem range_two : (0 : Int) ≤ 2 ∧ (2 : Int) < 2 ^ 31 := by decide

/-- The first slots of the first page, handed out in order. -/
def firstSlots : Placement D where
  place _ f :=
    match ([⟨⟨1, 0⟩, range_one, range_zero⟩, ⟨⟨1, 1⟩, range_one, range_one⟩,
        ⟨⟨1, 2⟩, range_one, range_two⟩] : List RecordId).find? fun rid => (f.row rid).isNone with
    | some rid => .ok rid
    | none => .error .recordNomem
  free n f rid h := by
    split at h
    · rename_i hfind
      obtain rfl := Except.ok.inj h
      exact Option.isNone_iff_eq_none.mp (by simpa using List.find?_some hfind)
    · cases h
  refused n f rc h := by
    split at h
    · cases h
    · obtain rfl := Except.error.inj h
      rintro ⟨⟩

/-- A unique index on one integer field. -/
def intIndex (unique : Bool) : IndexMeta Int Int where
  unique := unique
  keyOf := id
  attrCmp := compare
  zeroKey := ⟨0, .min⟩
  attrLength := 4
  internalMaxSize := 6
  leafMaxSize := 4
  leaf := by decide
  internal := by decide

theorem IndexMeta.create_holds {m : IndexMeta D U} (h : Std.TransCmp m.attrCmp) : m.create.Holds [] :=
  ⟨IsIndex.create ⟨m.leaf, by have := m.internal; omega, Or.inl m.internal⟩, h⟩

/-- An empty table with a unique index. -/
def emptyTable : Table Int Int := ⟨.empty, [(intIndex true).create]⟩

/-- Two rows, an index that is not unique, and a unique one. -/
def twoIndexes : Table Int Int := ⟨.empty, [(intIndex false).create, (intIndex true).create]⟩

def sevenAndNine : Table Int Int :=
  match runOps TableOp.apply twoIndexes [.insertRecord firstSlots ⟨-1, 5, 7⟩, .insertRecord firstSlots ⟨-1, 5, 9⟩] with
  | .ok (_, t) => t
  | .error _ => twoIndexes

/-- The table with 7 inserted. -/
def oneRow : Table Int Int :=
  (emptyTable.insertRecord (firstSlots.place 0) ⟨-1, 5, 7⟩).toOption.elim emptyTable fun out => out.2.2

end Miniob.Db
