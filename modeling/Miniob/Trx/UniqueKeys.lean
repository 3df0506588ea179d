/-
  Duplicate keys.

  1. **The answer** — `insert_entry` compares with every entry of a unique index, so an insertion is
     refused exactly if some stored row has the same key (`Table.Indexed.insertRecord_rc`).
  2. **Who sees the row** — the index does not know: a row that a committed transaction has deleted keeps
     its entry, and so does one that was committed after the inserting transaction has started.
  3. **Runs** — this needs indexes that list the rows of their tables, as in `Trx.Indexes`.
-/
import Miniob.Trx.Indexes
import Miniob.Db.Backed

namespace Miniob.Db

open Miniob.Common Miniob.Index Miniob.Storage TableIndex

variable {D U : Type} {t : Table D U} {r : Row D} {rid : RecordId}

/-! ## The answer of `insert_record` -/

/-- The row and the data have the same key in a unique index. -/
def Table.SameKey (t : Table D U) (data : D) (r : Row D) : Prop :=
  ∃ i ∈ t.indexes, i.unique = true ∧ i.attrCmp (i.keyOf r.data) (i.keyOf data) = .eq

/-- Some row of the table has the key of the data. -/
def Table.StoresKey (t : Table D U) (data : D) : Prop :=
  ∃ rid r, t.file.row rid = some r ∧ t.SameKey data r

/-- An index refuses an entry because of a stored row with the same key. -/
theorem TableIndex.Lists.rejects_iff {i : TableIndex D U} (h : i.Lists t.file)
    (hfree : t.file.row rid = none) : i.Rejects r.data rid ↔
      i.unique = true ∧ ∃ rid' r', t.file.row rid' = some r' ∧
        i.attrCmp (i.keyOf r'.data) (i.keyOf r.data) = .eq := by
  obtain ⟨es, hes, -, hmem⟩ := h
  constructor
  · refine TableIndex.BackedBy.rejects ⟨es, hes, fun e he => ?_⟩ hfree
    exact (hmem e).mp he
  · rintro ⟨hu, rid', r', hr', heq⟩
    refine (hes.rejects_iff _ _).mpr ⟨_, (hmem _).mpr ⟨rid', r', hr', rfl⟩, ?_⟩
    rw [TableIndex.cmp, hu, keyCmp_true]
    exact heq

/-- An index that has got the entry has not refused it. -/
theorem not_rejects_of_inserted {is is' : List (TableIndex D U)}
    (h : List.Forall₂ (Inserted r.data rid) is is') : ∀ i ∈ is, ¬ i.Rejects r.data rid := by
  induction h with
  | nil => exact List.forall_mem_nil _
  | cons hi _ ih =>
    obtain ⟨-, -, -, -, -, hnot, -⟩ := hi
    exact List.forall_mem_cons.mpr ⟨hnot, ih⟩

theorem Table.Indexed.storesKey_iff (h : t.Indexed) (hfree : t.file.row rid = none) :
    t.StoresKey r.data ↔ ∃ i ∈ t.indexes, i.Rejects r.data rid := by
  constructor
  · rintro ⟨rid', r', hr', i, hi, hu, heq⟩
    exact ⟨i, hi, ((h i hi).rejects_iff hfree).mpr ⟨hu, rid', r', hr', heq⟩⟩
  · rintro ⟨i, hi, hrej⟩
    obtain ⟨hu, rid', r', hr', heq⟩ := ((h i hi).rejects_iff hfree).mp hrej
    exact ⟨rid', r', hr', i, hi, hu, heq⟩

/-- **`insert_record`** of a file with room. -/
theorem Table.Indexed.insertRecord_rc (h : t.Indexed) {p : RecordFile D → Except RC RecordId}
    (hp : p t.file = .ok rid) (hfree : t.file.row rid = none) :
    ∃ rc rid' t', t.insertRecord p r = .ok (rc, rid', t') ∧
      (rc = .recordDuplicateKey ↔ t.StoresKey r.data) := by
  rw [h.storesKey_iff hfree]
  rcases @insertEntryOfIndexes_spec D U r.data rid _ _ _ .nil h.sound with
    ⟨indexes, hins, hall⟩ | ⟨front, i, back, indexes, hsplit, -, hrej, -, -⟩
  · refine ⟨_, _, _, insertRecord_stored hp hins, iff_of_false nofun ?_⟩
    rintro ⟨i, hi, hrej⟩
    exact not_rejects_of_inserted hall i hi hrej
  · have hi : i ∈ t.indexes := by
      rw [hsplit]
      simp
    cases h.sound.insertRecord p r with
    | refused hp' _ => cases hp.symm.trans hp'
    | stored hp' hall hrun =>
      cases hp.symm.trans hp'
      exact absurd hrej (not_rejects_of_inserted hall i hi)
    | rejectedLater _ _ _ _ hrun => exact ⟨_, _, _, hrun, iff_of_true rfl ⟨i, hi, hrej⟩⟩
    | rejectedFirst _ _ _ _ _ hrun => exact ⟨_, _, _, hrun, iff_of_true rfl ⟨i, hi, hrej⟩⟩

end Miniob.Db

namespace Miniob.Trx

open Miniob.Common Miniob.Db Miniob.Storage

variable {D U : Type}

/-! ## Who holds a key -/

/-- `commit` or `rollback` has not been called, or has operations to work off. -/
def MvccTrx.Unfinished (x : MvccTrx) : Prop := x.phase = .active ∨ x.pending ≠ []

/-- An unfinished transaction has inserted or deleted the row. -/
def Database.HeldRow (db : Database D U) (r : Row D) : Prop :=
  ∃ S x, db.trx S = some x ∧ x.Unfinished ∧ (r.beginXid = -S ∨ r.endXid = -S)

/-- A row with the key of the data is visible to the transaction or held by an unfinished one. -/
def Database.KeyTaken (db : Database D U) (T : Int) (t : Table D U) (data : D) : Prop :=
  ∃ rid r, t.file.row rid = some r ∧ t.SameKey data r ∧ (Visible T r ∨ db.HeldRow r)

/-- The INSERT of the row fails with a duplicate key exactly if its key is taken. -/
def Database.EnforcesUnique (db : Database D U) (T : Int) (tid : TableId) (t : Table D U) (data : D)
    (p : Placement D) : Prop :=
  ∃ rc db', db.insertRecord T tid data p = .ok (rc, db') ∧
    (rc = .recordDuplicateKey ↔ db.KeyTaken T t data)

/-- `insert_record` of a transaction answers what the table answers. -/
theorem insertRecord_rc {db : Database D U} {T : Int} {x : MvccTrx} {tid : TableId} {t : Table D U}
    {data : D} {p : Placement D} {rid : RecordId} (hx : db.activeTrx T = .ok x)
    (ht : db.tables tid = some t) (hroom : p.place 0 t.file = .ok rid) (hi : t.Indexed) :
    ∃ rc db', db.insertRecord T tid data p = .ok (rc, db') ∧
      (rc = .recordDuplicateKey ↔ t.StoresKey data) := by
  obtain ⟨rc, rid', t', hrun, hiff⟩ := hi.insertRecord_rc (r := ⟨-T, maxTrxId, data⟩) hroom
    (p.free 0 _ _ hroom)
  have hfind : db.findTable tid = .ok t := by
    unfold Database.findTable
    rw [ht]
  unfold Database.insertRecord
  rw [bind_ok _ hx, bind_ok _ hfind, bind_ok _ hrun]
  dsimp only
  split
  · exact ⟨_, _, rfl, hiff⟩
  · exact ⟨_, _, rfl, hiff⟩

end Miniob.Trx
