/-
  The indexes of a table list its records.

  `Lists` relates one index and the record file: one entry for each stored record, and no other.
  Insertions and deletions of the table keep it, with the exception known from `insert_record`: an
  insertion the first index refuses.  `create_index` establishes it if the session's transaction
  sees every record.
-/
import Miniob.Db.InsertRecord

namespace Miniob.Db

open Miniob.Common Miniob.Index Miniob.Storage Miniob.Trx TableIndex

variable {D U : Type}

/-! ## One index -/

/-- The index holds exactly one entry for each record of the file. -/
def TableIndex.Lists (i : TableIndex D U) (f : RecordFile D) : Prop :=
  ∃ es, i.Holds es ∧ es.Nodup ∧ ∀ e, e ∈ es ↔ ∃ rid r, f.row rid = some r ∧ e = i.entry r.data rid

section Lists

variable {i i' : TableIndex D U} {f f' : RecordFile D} {rid : RecordId} {r : Row D}

theorem TableIndex.Lists.sound (h : i.Lists f) : i.Sound := by
  obtain ⟨es, hes, -⟩ := h
  exact ⟨es, hes⟩

theorem TableIndex.Lists.holds (h : i.Lists f) (hr : f.row rid = some r) :
    ∃ es, i.Holds es ∧ i.entry r.data rid ∈ es := by
  obtain ⟨es, hes, -, hmem⟩ := h
  exact ⟨es, hes, (hmem _).mpr ⟨rid, r, hr, rfl⟩⟩

/-- The entry and the row are inserted together. -/
theorem TableIndex.Lists.inserted (h : i.Lists f) (hi : Inserted r.data rid i i')
    (hfree : f.row rid = none) : i'.Lists (f.bind rid r) := by
  obtain ⟨es, hes, -, hmem⟩ := h
  obtain ⟨hdef, es₁, es', h₁, h', -, hmem'⟩ := hi
  obtain rfl := hes.unique h₁
  refine ⟨es', h', h'.nodup, fun e => ?_⟩
  rw [hmem', hmem]
  constructor
  · rintro (rfl | ⟨rid', r', hr', rfl⟩)
    · exact ⟨rid, r, RecordFile.bind_row_self .., (hdef.entry _ _).symm⟩
    · refine ⟨rid', r', ?_, (hdef.entry _ _).symm⟩
      rw [RecordFile.bind_row_of_ne, hr']
      rintro rfl
      cases hfree.symm.trans hr'
  · rintro ⟨rid', r', hr', rfl⟩
    rw [hdef.entry]
    by_cases heq : rid' = rid
    · subst heq
      rw [RecordFile.bind_row_self] at hr'
      obtain rfl := Option.some.inj hr'
      exact Or.inl rfl
    · rw [RecordFile.bind_row_of_ne _ _ heq] at hr'
      exact Or.inr ⟨rid', r', hr', rfl⟩

/-- The entry and the row are deleted together. -/
theorem TableIndex.Lists.deleted (h : i.Lists f) (hi : Deleted r.data rid i i')
    (hr : f.row rid = some r) : i'.Lists (f.unbind rid) := by
  obtain ⟨es, hes, -, hmem⟩ := h
  obtain ⟨hdef, es₁, es', h₁, h', -, hmem'⟩ := hi
  obtain rfl := hes.unique h₁
  refine ⟨es', h', h'.nodup, fun e => ?_⟩
  rw [hmem', hmem]
  constructor
  · rintro ⟨⟨rid', r', hr', rfl⟩, hne⟩
    refine ⟨rid', r', ?_, (hdef.entry _ _).symm⟩
    rw [RecordFile.unbind_row_of_ne, hr']
    rintro rfl
    obtain rfl := Option.some.inj (hr.symm.trans hr')
    exact hne rfl
  · rintro ⟨rid', r', hr', rfl⟩
    rw [hdef.entry]
    rw [RecordFile.unbind_row] at hr'
    split at hr'
    · cases hr'
    · rename_i hne
      refine ⟨⟨rid', r', hr', rfl⟩, fun heq => hne ?_⟩
      exact congrArg Prod.snd heq

/-- The entries are what counts. -/
theorem TableIndex.Lists.same (h : i.Lists f) (hi : SameEntries i i') : i'.Lists f := by
  obtain ⟨es, hes, hnd, hmem⟩ := h
  refine ⟨es, hi.holds hes, hnd, fun e => ?_⟩
  rw [hmem]
  constructor
  · rintro ⟨rid, r, hr, rfl⟩
    exact ⟨rid, r, hr, (hi.1.entry _ _).symm⟩
  · rintro ⟨rid, r, hr, rfl⟩
    exact ⟨rid, r, hr, hi.1.entry _ _⟩

/-- Hidden fields are not indexed. -/
theorem TableIndex.Lists.rebind {r' : Row D} (h : i.Lists f) (hr : f.row rid = some r)
    (hdata : r'.data = r.data) : i.Lists (f.bind rid r') := by
  obtain ⟨es, hes, hnd, hmem⟩ := h
  refine ⟨es, hes, hnd, fun e => ?_⟩
  rw [hmem]
  constructor
  · rintro ⟨rid₁, r₁, hr₁, rfl⟩
    by_cases heq : rid₁ = rid
    · subst heq
      obtain rfl := Option.some.inj (hr.symm.trans hr₁)
      exact ⟨rid₁, r', RecordFile.bind_row_self .., by rw [hdata]⟩
    · exact ⟨rid₁, r₁, by rw [RecordFile.bind_row_of_ne _ _ heq, hr₁], rfl⟩
  · rintro ⟨rid₁, r₁, hr₁, rfl⟩
    by_cases heq : rid₁ = rid
    · subst heq
      rw [RecordFile.bind_row_self] at hr₁
      obtain rfl := Option.some.inj hr₁
      exact ⟨rid₁, r, hr, by rw [hdata]⟩
    · rw [RecordFile.bind_row_of_ne _ _ heq] at hr₁
      exact ⟨rid₁, r₁, hr₁, rfl⟩

end Lists

/-! ## A table -/

namespace Table

variable {t t' : Table D U} {rid : RecordId} {r : Row D} {rc : RC}

/-- Every index lists the records of the table. -/
def Indexed (t : Table D U) : Prop := ∀ i ∈ t.indexes, i.Lists t.file

/-- The first index does not refuse the record. -/
def Admits (t : Table D U) (place : RecordFile D → Except RC RecordId) (r : Row D) : Prop :=
  ∀ rid i rest, place t.file = .ok rid → t.indexes = i :: rest → ¬ i.Rejects r.data rid

/-- An insertion that succeeds is not refused by the first index. -/
theorem admits_of_success {place : RecordFile D → Except RC RecordId} {rid : Option RecordId}
    (hrun : t.insertRecord place r = .ok (.success, rid, t')) : t.Admits place r := by
  intro rid' i rest hplace hi hrej
  unfold insertRecord at hrun
  rw [hplace] at hrun
  have hins : insertEntryOfIndexes r.data rid' [] t.indexes = .ok (.recordDuplicateKey, i :: rest) := by
    rw [hi, insertEntryOfIndexes, bind_ok _ hrej.insertEntry]
    rfl
  dsimp only at hrun
  rw [bind_ok _ hins] at hrun
  obtain ⟨_, -, hrun⟩ := ok_of_bind hrun
  cases hrun

theorem Indexed.sound (h : t.Indexed) : t.Sound := fun i hi => (h i hi).sound

theorem Indexed.empty : Indexed (⟨.empty, []⟩ : Table D U) := List.forall_mem_nil _

/-- Index by index. -/
theorem forall_of_forall₂ {R : TableIndex D U → TableIndex D U → Prop} {f f' : RecordFile D}
    {is is' : List (TableIndex D U)} (h : List.Forall₂ R is is')
    (himp : ∀ i i', i.Lists f → R i i' → i'.Lists f') (hi : ∀ i ∈ is, i.Lists f) :
    ∀ i ∈ is', i.Lists f' := by
  induction h with
  | nil => exact List.forall_mem_nil _
  | cons hR _ ih =>
    intro j hj
    rcases List.mem_cons.mp hj with rfl | hj
    · exact himp _ _ (hi _ (by simp)) hR
    · exact ih (fun i hi' => hi i (List.mem_cons_of_mem _ hi')) j hj

/-- **`insert_record`**, if the first index does not refuse the record. -/
theorem Indexed.insertRecord (h : t.Indexed) {p : Placement D} {n : Nat}
    (hadm : t.Admits (p.place n) r) : ∃ rc rid t', t.insertRecord (p.place n) r = .ok (rc, rid, t') ∧
      t'.Indexed ∧ (rc ≠ .success → t'.file = t.file) ∧
      (rc = .success → ∃ rid', rid = some rid' ∧ t.file.row rid' = none ∧
        t'.file = t.file.bind rid' r) := by
  cases h.sound.insertRecord (p.place n) r with
  | refused hp hrun => exact ⟨_, _, t, hrun, h, fun _ => rfl, fun hrc => absurd hrc (p.refused n _ _ hp)⟩
  | stored hp hall hrun =>
    have hfree := p.free n _ _ hp
    refine ⟨_, _, _, hrun, ?_, fun hrc => absurd rfl hrc, fun _ => ⟨_, rfl, hfree, rfl⟩⟩
    exact forall_of_forall₂ hall (fun _ _ hi hR => hi.inserted hR hfree) h
  | rejectedLater hp hi hnot hsame hrun =>
    have hfile := RecordFile.unbind_bind (p.free n _ _ hp) r
    refine ⟨_, _, _, hrun, ?_, fun _ => hfile, nofun⟩
    unfold Indexed
    dsimp only
    rw [hfile]
    exact forall_of_forall₂ hsame (fun _ _ hi hR => hi.same hR) h
  | rejectedFirst hp hi hrej => exact absurd hrej (hadm _ _ _ hp hi)

/-- **`delete_record`** of a stored record finds all its entries. -/
theorem Indexed.deleteRecord (h : t.Indexed) (hr : t.file.row rid = some r) :
    ∃ t', t.deleteRecord r.data rid = .ok (.success, t') ∧ t'.Indexed ∧
      t'.file = t.file.unbind rid := by
  obtain ⟨is, hrun, hall⟩ := @deleteEntries_spec D U r.data rid _
    fun i hi => (h i hi).holds hr
  refine ⟨⟨t.file.unbind rid, is⟩, ?_, ?_, rfl⟩
  · unfold Table.deleteRecord
    rw [bind_ok _ hrun, hr]
    rfl
  · exact forall_of_forall₂ hall (fun _ _ hi hR => hi.deleted hR hr) h

/-- A row of the table can always be deleted. -/
theorem Indexed.deleteRecordAt (h : t.Indexed) (rid : RecordId) :
    ∃ rc t', t.deleteRecordAt rid = .ok (rc, t') ∧ t'.Indexed := by
  unfold Table.deleteRecordAt
  cases hr : t.file.row rid with
  | none => exact ⟨_, t, rfl, h⟩
  | some r =>
    obtain ⟨t', hrun, h', -⟩ := h.deleteRecord hr
    exact ⟨_, t', hrun, h'⟩

/-- New hidden fields. -/
theorem Indexed.rebind {r' : Row D} (h : t.Indexed) (hr : t.file.row rid = some r)
    (hdata : r'.data = r.data) : Indexed { t with file := t.file.bind rid r' } :=
  fun i hi => (h i hi).rebind hr hdata

/-! ## `create_index` -/

/-- The loop of `create_index` enters the visible records, or stops at an equal key. -/
theorem fillIndex_spec {trxId : Int} {f : RecordFile D} : ∀ {rids : List RecordId}
    {i : TableIndex D U} {es : List (IndexKey U × RecordId)}, i.Holds es →
    ∃ rc i', fillIndex trxId f i rids = .ok (rc, i') ∧ SameDef i i' ∧
      (rc = .success → ∃ es', i'.Holds es' ∧ ∀ e, e ∈ es' ↔ e ∈ es ∨ ∃ rid ∈ rids, ∃ r,
        f.row rid = some r ∧ Visible trxId r ∧ e = i.entry r.data rid)
  | [], i, es, h => ⟨.success, i, rfl, .refl i, fun _ => ⟨es, h, fun e => by simp⟩⟩
  | rid :: rids, i, es, h => by
    -- a record that is passed over
    have hskip : (∀ r, f.row rid = some r → ¬ Visible trxId r) →
        fillIndex trxId f i (rid :: rids) = fillIndex trxId f i rids →
        ∃ rc i', fillIndex trxId f i (rid :: rids) = .ok (rc, i') ∧ SameDef i i' ∧
          (rc = .success → ∃ es', i'.Holds es' ∧ ∀ e, e ∈ es' ↔ e ∈ es ∨ ∃ rid' ∈ rid :: rids,
            ∃ r, f.row rid' = some r ∧ Visible trxId r ∧ e = i.entry r.data rid') := by
      intro hnot hcode
      obtain ⟨rc, i', hrun, hdef, hok⟩ := @fillIndex_spec trxId f rids _ _ h
      refine ⟨rc, i', hcode.trans hrun, hdef, fun hrc => ?_⟩
      obtain ⟨es', hes', hmem⟩ := hok hrc
      refine ⟨es', hes', fun e => ?_⟩
      rw [hmem]
      refine or_congr_right ⟨?_, ?_⟩
      · rintro ⟨rid', hrid, r, hr, hv, rfl⟩
        exact ⟨rid', List.mem_cons_of_mem rid hrid, r, hr, hv, rfl⟩
      · rintro ⟨rid', hrid, r, hr, hv, rfl⟩
        rcases List.mem_cons.mp hrid with rfl | hrid
        · exact absurd hv (hnot r hr)
        · exact ⟨rid', hrid, r, hr, hv, rfl⟩
    cases hr : f.row rid with
    | none =>
      refine hskip ?_ ?_
      · intro r hr'
        cases hr.symm.trans hr'
      · rw [fillIndex, hr]
    | some r =>
      rcases visitRecord_readOnly trxId r with hv | hv
      · rcases h.insertEntry r.data rid with ⟨-, hrun⟩ | ⟨i', hi', hrun⟩
        · refine ⟨.recordDuplicateKey, i, ?_, .refl i, nofun⟩
          rw [fillIndex, hr]
          dsimp only
          rw [hv]
          dsimp only
          rw [bind_ok _ hrun]
          rfl
        · obtain ⟨hdef, es₀, es₁, h₀, h₁, -, hmem₁⟩ := hi'
          obtain rfl := h.unique h₀
          obtain ⟨rc, i'', hrest, hdef', hok⟩ := @fillIndex_spec trxId f rids _ _ h₁
          refine ⟨rc, i'', ?_, hdef.trans hdef', fun hrc => ?_⟩
          · rw [fillIndex, hr]
            dsimp only
            rw [hv]
            dsimp only
            rw [bind_ok _ hrun]
            exact hrest
          · obtain ⟨es', hes', hmem⟩ := hok hrc
            refine ⟨es', hes', fun e => ?_⟩
            rw [hmem, hmem₁]
            constructor
            · rintro ((rfl | he) | ⟨rid', hrid, r', hr', hv', rfl⟩)
              · exact Or.inr ⟨rid, by simp, r, hr, hv, rfl⟩
              · exact Or.inl he
              · exact Or.inr ⟨rid', List.mem_cons_of_mem rid hrid, r', hr', hv', hdef.entry _ _⟩
            · rintro (he | ⟨rid', hrid, r', hr', hv', rfl⟩)
              · exact Or.inl (Or.inr he)
              · rcases List.mem_cons.mp hrid with rfl | hrid
                · obtain rfl := Option.some.inj (hr.symm.trans hr')
                  exact Or.inl (Or.inl rfl)
                · exact Or.inr ⟨rid', hrid, r', hr', hv', (hdef.entry _ _).symm⟩
      · refine hskip ?_ ?_
        · intro r' hr' hv'
          obtain rfl := Option.some.inj (hr.symm.trans hr')
          cases hv.symm.trans hv'
        · rw [fillIndex, hr]
          dsimp only
          rw [hv]

/-- CREATE INDEX sees every record, or two of the records it sees have equal keys; and the key values are totally
    ordered, so there is no NULL among them. -/
def CreatesIndex (t : Table D U) (trxId : Int) (m : IndexMeta D U) : Prop :=
  Std.TransCmp m.attrCmp ∧
  ((∀ rid r, t.file.row rid = some r → Visible trxId r) ∨
  ∃ rid r rid' r', rid ≠ rid' ∧ t.file.row rid = some r ∧ t.file.row rid' = some r' ∧
    Visible trxId r ∧ Visible trxId r' ∧
    m.create.cmp (m.create.entry r.data rid).1 (m.create.entry r'.data rid').1 = .eq)

/-- **`create_index`.** -/
theorem Indexed.createIndex (h : t.Indexed) {trxId : Int} {m : IndexMeta D U}
    (hok : t.CreatesIndex trxId m) :
    ∃ rc t', t.createIndex trxId m = .ok (rc, t') ∧ t'.Indexed := by
  obtain ⟨hordered, hok⟩ := hok
  obtain ⟨rc, i, hrun, hdef, hspec⟩ := @fillIndex_spec D U trxId t.file t.file.rids _ _
    (IndexMeta.create_holds hordered)
  unfold Table.createIndex
  rw [bind_ok _ hrun]
  dsimp only
  by_cases hrc : rc = .success
  · rw [if_neg (not_not.mpr hrc)]
    refine ⟨rc, _, rfl, ?_⟩
    -- the new index holds the entries of the rows the transaction sees
    obtain ⟨es, hes, hmem⟩ := hspec hrc
    have hmem' : ∀ e, e ∈ es ↔ ∃ rid r, t.file.row rid = some r ∧ Visible trxId r ∧
        e = m.create.entry r.data rid := by
      intro e
      rw [hmem]
      constructor
      · rintro (he | ⟨rid, -, r, hr, hv, rfl⟩)
        · cases he
        · exact ⟨rid, r, hr, hv, rfl⟩
      · rintro ⟨rid, r, hr, hv, rfl⟩
        exact Or.inr ⟨rid, (t.file.mem_rids rid).mpr (by rw [hr]; rfl), r, hr, hv, rfl⟩
    -- every row is seen, or two rows seen have one key
    rcases hok with hall | ⟨rid, r, rid', r', hne, hr, hr', hv, hv', heq⟩
    · intro j hj
      rcases List.mem_append.mp hj with hj | hj
      · exact h j hj
      · obtain rfl := List.mem_singleton.mp hj
        refine ⟨es, hes, hes.nodup, fun e => ?_⟩
        rw [hmem']
        constructor
        · rintro ⟨rid, r, hr, -, rfl⟩
          exact ⟨rid, r, hr, (hdef.entry _ _).symm⟩
        · rintro ⟨rid, r, hr, rfl⟩
          exact ⟨rid, r, hr, hall rid r hr, hdef.entry _ _⟩
    · -- two equal keys cannot both have been entered
      rw [← hdef.cmp] at heq
      have := hes.eq_of_cmp ((hmem' _).mpr ⟨rid, r, hr, hv, rfl⟩)
        ((hmem' _).mpr ⟨rid', r', hr', hv', rfl⟩) heq
      exact absurd (congrArg Prod.snd this) hne
  -- an index that could not be filled is not added
  · rw [if_pos hrc]
    exact ⟨rc, t, rfl, h⟩

end Table

end Miniob.Db
