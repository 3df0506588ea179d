/-
  Every entry of an index belongs to a stored record.

  This is weaker than `Lists`: it survives an insertion that is refused, also one that costs the first
  index the entry that stood in the way.  It is enough to put back records that were in a table whose
  indexes listed them: nothing that is left can refuse them (`Table.Backed.insertRecord`).
-/
import Miniob.Db.Contents
import Miniob.Db.Indexed

namespace Miniob.Db

open Miniob.Common Miniob.Index Miniob.Storage TableIndex

variable {D U : Type}

/-! ## One index -/

def TableIndex.BackedBy (i : TableIndex D U) (f : RecordFile D) : Prop :=
  ∃ es, i.Holds es ∧ ∀ e ∈ es, ∃ rid r, f.row rid = some r ∧ e = i.entry r.data rid

/-- `i'` has lost some entries of `i`. -/
def Shrinks (i i' : TableIndex D U) : Prop :=
  SameDef i i' ∧ ∃ es es', i.Holds es ∧ i'.Holds es' ∧ ∀ e ∈ es', e ∈ es

/-- `i'` has lost some entries of `i`, and does not hold the one of the record. -/
def Loses (record : D) (rid : RecordId) (i i' : TableIndex D U) : Prop :=
  SameDef i i' ∧ ∃ es es', i.Holds es ∧ i'.Holds es' ∧
    ∀ e ∈ es', e ∈ es ∧ e ≠ i.entry record rid

section Index

variable {i i' i'' : TableIndex D U} {f : RecordFile D} {record : D} {rid : RecordId}

theorem Loses.shrinks (h : Loses record rid i i') : Shrinks i i' := by
  obtain ⟨hdef, es, es', hes, hes', hmem⟩ := h
  exact ⟨hdef, es, es', hes, hes', fun e he => (hmem e he).1⟩

theorem TableIndex.SameEntries.shrinks (h : SameEntries i i') : Shrinks i i' := by
  obtain ⟨hdef, es, hes, hes'⟩ := h
  exact ⟨hdef, es, es, hes, hes', fun _ he => he⟩

theorem Shrinks.trans (h : Shrinks i i') (h' : Shrinks i' i'') : Shrinks i i'' := by
  obtain ⟨hdef, es, es₁, hes, hes₁, hmem⟩ := h
  obtain ⟨hdef', es₂, es', hes₂, hes', hmem'⟩ := h'
  obtain rfl := hes₁.unique hes₂
  exact ⟨hdef.trans hdef', es, es', hes, hes', fun e he => hmem e (hmem' e he)⟩

/-- A deletion from a sound tree takes out an entry of the key, if there is one. -/
theorem TableIndex.Sound.loses (h : i.Sound) (record : D) (rid : RecordId) :
    ∃ rc i', i.deleteEntry record rid = .ok (rc, i') ∧ Loses record rid i i' := by
  obtain ⟨es, hes⟩ := h
  rcases hes.deleteEntry record rid with ⟨hnot, hrun⟩ | ⟨e, i', es', he, heq, hdef, hes', hmem, hrun⟩
  · refine ⟨_, i, hrun, .refl i, es, es, hes, hes, fun e he => ⟨he, ?_⟩⟩
    rintro rfl
    exact hnot ((hes.rejects_iff _ _).mpr ⟨_, he, hes.compare_self _⟩)
  · refine ⟨_, i', hrun, hdef, es, es', hes, hes', fun x hx => ⟨((hmem x).mp hx).1, ?_⟩⟩
    rintro rfl
    -- the entry of the record has the key of the entry that is gone
    have hx' := (hmem _).mp hx
    exact hx'.2 (hes.eq_of_cmp he hx'.1 heq).symm

/-- Fewer entries are backed by the same rows. -/
theorem Shrinks.backedBy (h : Shrinks i i') (hi : i.BackedBy f) : i'.BackedBy f := by
  obtain ⟨hdef, es, es', hes, hes', hmem⟩ := h
  obtain ⟨es₁, hes₁, hback⟩ := hi
  obtain rfl := hes.unique hes₁
  refine ⟨es', hes', fun e he => ?_⟩
  obtain ⟨rid, r, hr, heq⟩ := hback e (hmem e he)
  exact ⟨rid, r, hr, heq.trans (hdef.entry _ _).symm⟩

/-- The row can go when its entry is gone. -/
theorem Loses.backedBy {r : Row D} (h : Loses r.data rid i i') (hr : f.row rid = some r)
    (hi : i.BackedBy f) : i'.BackedBy (f.unbind rid) := by
  obtain ⟨hdef, es, es', hes, hes', hmem⟩ := h
  obtain ⟨es₁, hes₁, hback⟩ := hi
  obtain rfl := hes.unique hes₁
  refine ⟨es', hes', fun e he => ?_⟩
  obtain ⟨hold, hne⟩ := hmem e he
  obtain ⟨rid', r', hr', rfl⟩ := hback e hold
  refine ⟨rid', r', ?_, (hdef.entry _ _).symm⟩
  rw [RecordFile.unbind_row_of_ne, hr']
  rintro rfl
  obtain rfl := Option.some.inj (hr.symm.trans hr')
  exact hne rfl

/-- A new entry is backed by the new row. -/
theorem backedBy_inserted {r : Row D} (h : Inserted r.data rid i i') (hfree : f.row rid = none)
    (hi : i.BackedBy f) : i'.BackedBy (f.bind rid r) := by
  obtain ⟨hdef, es, es', hes, hes', -, hmem⟩ := h
  obtain ⟨es₁, hes₁, hback⟩ := hi
  obtain rfl := hes.unique hes₁
  refine ⟨es', hes', fun e he => ?_⟩
  rcases (hmem e).mp he with rfl | hold
  · exact ⟨rid, r, RecordFile.bind_row_self .., (hdef.entry _ _).symm⟩
  · obtain ⟨rid', r', hr', rfl⟩ := hback e hold
    refine ⟨rid', r', ?_, (hdef.entry _ _).symm⟩
    rw [RecordFile.bind_row_of_ne, hr']
    rintro rfl
    cases hfree.symm.trans hr'

/-- A record is refused because of another record with equal key fields. -/
theorem TableIndex.BackedBy.rejects {r : Row D} (hi : i.BackedBy f) (hfree : f.row rid = none)
    (hrej : i.Rejects r.data rid) : i.unique = true ∧ ∃ rid' r', f.row rid' = some r' ∧
      i.attrCmp (i.keyOf r'.data) (i.keyOf r.data) = .eq := by
  obtain ⟨es, hes, hback⟩ := hi
  obtain ⟨e, he, heq⟩ := (hes.rejects_iff _ _).mp hrej
  obtain ⟨rid', r', hr', rfl⟩ := hback e he
  cases hu : i.unique with
  | true =>
    rw [TableIndex.cmp, hu, keyCmp_true] at heq
    exact ⟨rfl, rid', r', hr', heq⟩
  | false =>
    rw [TableIndex.cmp, hu, keyCmp_false, Ordering.then_eq_eq] at heq
    have hrid : rid' = rid := Std.LawfulEqCmp.eq_of_compare heq.2
    rw [hrid, hfree] at hr'
    cases hr'

/-- Two records of a table do not have equal key fields in a unique index. -/
theorem TableIndex.Lists.attrCmp_ne (h : i.Lists f) (hu : i.unique = true) {rid' : RecordId}
    {r r' : Row D} (hr : f.row rid = some r) (hr' : f.row rid' = some r') (hne : rid ≠ rid') :
    i.attrCmp (i.keyOf r.data) (i.keyOf r'.data) ≠ .eq := by
  obtain ⟨es, hes, -, hmem⟩ := h
  intro heq
  have hcmp : i.cmp (i.entry r.data rid).1 (i.entry r'.data rid').1 = .eq := by
    rw [TableIndex.cmp, hu, keyCmp_true]
    exact heq
  have hentry := hes.eq_of_cmp ((hmem _).mpr ⟨rid, r, hr, rfl⟩) ((hmem _).mpr ⟨rid', r', hr', rfl⟩) hcmp
  exact hne (congrArg Prod.snd hentry)

end Index

/-! ## The loops -/

section Loops

variable {record : D} {rid : RecordId}

/-- Index by index. -/
theorem deleteEntries_loses : ∀ {is is' : List (TableIndex D U)}, (∀ i ∈ is, i.Sound) →
    deleteEntries record rid is = .ok is' → List.Forall₂ (Loses record rid) is is' := by
  intro is
  induction is with
  | nil =>
    intro is' _ hrun
    obtain rfl := Except.ok.inj hrun
    exact .nil
  | cons i rest ih =>
    intro is' h hrun
    obtain ⟨rc, i', hdel, hi'⟩ := (h i (by simp)).loses record rid
    rw [deleteEntries, bind_ok _ hdel] at hrun
    dsimp only at hrun
    split at hrun
    · cases hrun
    · obtain ⟨rest', hrest, hrun⟩ := ok_of_bind hrun
      obtain rfl := Except.ok.inj hrun
      exact .cons hi' (ih (fun j hj => h j (List.mem_cons_of_mem i hj)) hrest)

/-- Whatever it answers, it brings in no entry. -/
theorem deleteEntryOfIndexes_shrinks {flag : Bool} : ∀ {is : List (TableIndex D U)} {rc : RC},
    (∀ i ∈ is, i.Sound) → ∃ rc' is', deleteEntryOfIndexes record rid flag rc is = .ok (rc', is') ∧
      List.Forall₂ Shrinks is is' := by
  intro is
  induction is with
  | nil => exact fun _ => ⟨_, [], rfl, .nil⟩
  | cons i rest ih =>
    intro _ h
    obtain ⟨rc, i', hrun, hi'⟩ := (h i (by simp)).loses record rid
    have hrest : ∀ j ∈ rest, j.Sound := fun j hj => h j (List.mem_cons_of_mem i hj)
    obtain ⟨rc', rest', hok, hshrinks⟩ := @ih rc hrest
    rw [deleteEntryOfIndexes, bind_ok _ hrun]
    dsimp only
    split
    · refine ⟨rc, i' :: rest, rfl, .cons hi'.shrinks (List.forall₂_same.mpr fun j hj => ?_)⟩
      obtain ⟨es, hes⟩ := hrest j hj
      exact hes.sameEntries.shrinks
    · refine ⟨rc', i' :: rest', ?_, .cons hi'.shrinks hshrinks⟩
      show (deleteEntryOfIndexes record rid flag rc rest >>= fun x => pure (x.1, i' :: x.2)) = _
      rw [bind_ok _ hok]
      rfl

theorem shrinks_trans {is js ks : List (TableIndex D U)} (h : List.Forall₂ SameEntries is js)
    (h' : List.Forall₂ Shrinks js ks) : List.Forall₂ Shrinks is ks :=
  forall₂_comp h h' fun _ _ _ hi hj => hi.shrinks.trans hj

end Loops

/-! ## A table -/

namespace Table

/-- The indexes of `t` are those of `t₀`, up to their entries, which belong to stored records. -/
def Backed (t₀ t : Table D U) : Prop :=
  ∀ i ∈ t.indexes, (∃ i₀ ∈ t₀.indexes, SameDef i₀ i) ∧ i.BackedBy t.file

variable {t₀ t t' : Table D U} {rid : RecordId} {r : Row D} {rc : RC}

theorem Indexed.backed (h : t.Indexed) : Backed t t := by
  intro i hi
  obtain ⟨es, hes, -, hmem⟩ := h i hi
  exact ⟨⟨i, hi, .refl i⟩, es, hes, fun e he => (hmem e).mp he⟩

theorem Backed.sound (h : Backed t₀ t) : t.Sound := by
  intro i hi
  obtain ⟨-, es, hes, -⟩ := h i hi
  exact ⟨es, hes⟩

theorem Backed.map {R : TableIndex D U → TableIndex D U → Prop} (h : Backed t₀ t)
    (hall : List.Forall₂ R t.indexes t'.indexes)
    (hR : ∀ i i', R i i' → SameDef i i' ∧ (i.BackedBy t.file → i'.BackedBy t'.file)) :
    Backed t₀ t' := by
  intro i' hi'
  obtain ⟨i, hi, hii'⟩ := exists_of_forall₂ hall i' hi'
  obtain ⟨⟨i₀, hi₀, hdef⟩, hback⟩ := h i hi
  obtain ⟨hdef', himp⟩ := hR i i' hii'
  exact ⟨⟨i₀, hi₀, hdef.trans hdef'⟩, himp hback⟩

/-- **`delete_record`** of a stored record. -/
theorem Backed.deleteRecord (h : Backed t₀ t) (hr : t.file.row rid = some r)
    (hrun : t.deleteRecord r.data rid = .ok (rc, t')) :
    rc = .success ∧ t'.file = t.file.unbind rid ∧ Backed t₀ t' := by
  unfold Table.deleteRecord at hrun
  obtain ⟨is, hdel, hrun⟩ := ok_of_bind hrun
  rw [hr] at hrun
  obtain ⟨rfl, rfl⟩ := Prod.mk.inj (Except.ok.inj hrun)
  refine ⟨rfl, rfl, h.map (deleteEntries_loses h.sound hdel) fun i i' hi => ?_⟩
  exact ⟨hi.1, hi.backedBy hr⟩

/-- **`insert_record`**: refused by the file or by an index, or stored. -/
theorem Backed.insertRecord (h : Backed t₀ t) {p : Placement D} {n : Nat} {rid : Option RecordId}
    (hrun : t.insertRecord (p.place n) r = .ok (rc, rid, t')) : Backed t₀ t' ∧
      (rc ≠ .success → (∃ rc', p.place n t.file = .error rc') ∨
        ∃ rid', t.file.row rid' = none ∧ ∃ i ∈ t.indexes, i.Rejects r.data rid') := by
  unfold Table.insertRecord at hrun
  cases hp : p.place n t.file with
  | error rc' =>
    rw [hp] at hrun
    obtain ⟨-, h'⟩ := Prod.mk.inj (Except.ok.inj hrun)
    obtain ⟨-, rfl⟩ := Prod.mk.inj h'
    exact ⟨h, fun _ => Or.inl ⟨rc', rfl⟩⟩
  | ok rid' =>
    have hfree := p.free n _ _ hp
    rw [hp] at hrun
    dsimp only at hrun
    rcases @insertEntryOfIndexes_spec D U r.data rid' _ _ _ .nil h.sound with
      ⟨indexes, hins, hall⟩ | ⟨front, i, back, indexes, hsplit, -, hrej, hins, hsame⟩
    · rw [bind_ok _ hins] at hrun
      obtain ⟨rfl, h'⟩ := Prod.mk.inj (Except.ok.inj hrun)
      obtain ⟨-, rfl⟩ := Prod.mk.inj h'
      refine ⟨h.map hall fun i i' hi => ⟨hi.1, backedBy_inserted hi hfree⟩, fun hrc => ?_⟩
      exact absurd rfl hrc
    · -- the entries are taken back, and then once more
      replace hsame : List.Forall₂ SameEntries t.indexes indexes := hsame
      have hsound : ∀ j ∈ indexes, j.Sound := keeps_sound (keeps_of_sameEntries hsame)
      obtain ⟨rc2, is', hdel, hshrinks⟩ :=
        @deleteEntryOfIndexes_shrinks D U r.data rid' false indexes .success hsound
      rw [bind_ok _ hins] at hrun
      dsimp only at hrun
      rw [if_pos nofun, bind_ok _ hdel] at hrun
      obtain ⟨-, h'⟩ := Prod.mk.inj (Except.ok.inj hrun)
      obtain ⟨-, rfl⟩ := Prod.mk.inj h'
      have hfile := RecordFile.unbind_bind hfree r
      refine ⟨h.map (shrinks_trans hsame hshrinks) fun i i' hi => ⟨hi.1, fun hback => ?_⟩, fun _ => ?_⟩
      · dsimp only
        rw [hfile]
        exact hi.backedBy hback
      · exact Or.inr ⟨rid', hfree, i, by rw [hsplit]; simp, hrej⟩

/-! ## Rejected insertions -/

theorem shrinks_refl {is : List (TableIndex D U)} (h : ∀ i ∈ is, i.Sound) : List.Forall₂ Shrinks is is := by
  refine List.forall₂_same.mpr fun i hi => ?_
  obtain ⟨es, hes⟩ := h i hi
  exact TableIndex.SameEntries.shrinks hes.sameEntries

/-- An insertion that fails leaves the file as it is, and no index has got an entry. -/
theorem Sound.insertRecord_fails (h : t.Sound) {p : Placement D} {n : Nat} {rid : Option RecordId}
    (hrun : t.insertRecord (p.place n) r = .ok (rc, rid, t')) (hrc : rc ≠ .success) :
    t'.file = t.file ∧ List.Forall₂ Shrinks t.indexes t'.indexes := by
  have hfile : t'.file = t.file := by
    cases insertRecord_file hrun with
    | stored _ _ => exact absurd rfl hrc
    | rejected _ hfile => exact hfile
  refine ⟨hfile, ?_⟩
  unfold Table.insertRecord at hrun
  split at hrun
  · cases hrun
    exact shrinks_refl h
  · rename_i rid' hp
    rcases @insertEntryOfIndexes_spec D U r.data rid' _ _ _ .nil h with
      ⟨indexes, hins, hall⟩ | ⟨front, i, back, indexes, -, -, -, hins, hsame⟩
    · rw [bind_ok _ hins] at hrun
      dsimp only at hrun
      rw [if_neg (by simp)] at hrun
      cases hrun
      exact absurd rfl hrc
    · have hsound : ∀ i ∈ indexes, i.Sound := keeps_sound (keeps_of_sameEntries hsame)
      obtain ⟨rc', is', hdel, hshrinks⟩ :=
        @deleteEntryOfIndexes_shrinks D U r.data rid' false _ .success hsound
      rw [bind_ok _ hins] at hrun
      dsimp only at hrun
      rw [if_pos (by simp), bind_ok _ hdel] at hrun
      cases hrun
      exact shrinks_trans hsame hshrinks

/-! ## Records that have been there -/

/-- The data of the stored records. -/
def contents (t : Table D U) : Multiset D := t.file.collect fun _ r => some r.data

/-- The record that is stored at a place, and the others. -/
theorem contents_unbind (hr : t.file.row rid = some r) :
    t.contents = r.data ::ₘ (t.file.unbind rid).collect fun _ r => some r.data := by
  have hsplit := t.file.collect_split (fun _ r => some r.data) rid
  rw [hr] at hsplit
  exact hsplit

theorem contents_bind (hfree : t.file.row rid = none) (hfile : t'.file = t.file.bind rid r) :
    t'.contents = r.data ::ₘ t.contents := by
  have hr : t'.file.row rid = some r := by rw [hfile, RecordFile.bind_row_self]
  rw [contents_unbind hr, hfile, RecordFile.unbind_bind hfree]
  rfl

/-- There are as many places as rows. -/
theorem length_rids (t : Table D U) : t.file.rids.length = t.contents.card := by
  have hall : ∀ rid ∈ t.file.rids, ((t.file.row rid).bind fun r => some r.data).isSome := by
    intro rid hrid
    have hstored := (t.file.mem_rids rid).mp hrid
    cases hr : t.file.row rid with
    | none =>
      rw [hr] at hstored
      cases hstored
    | some r => rfl
  have hlen : ∀ rids : List RecordId,
      (∀ rid ∈ rids, ((t.file.row rid).bind fun r => some r.data).isSome) →
      (rids.filterMap fun rid => (t.file.row rid).bind fun r => some r.data).length = rids.length := by
    intro rids h
    induction rids with
    | nil => rfl
    | cons rid rids ih =>
      obtain ⟨d, hd⟩ := Option.isSome_iff_exists.mp (h rid (by simp))
      rw [List.filterMap_cons, hd, List.length_cons, List.length_cons,
        ih fun s hs => h s (List.mem_cons_of_mem rid hs)]
  exact (hlen _ hall).symm

/-- What is collected comes from a row. -/
theorem mem_collect {β : Type} {f : RecordFile D} {g : RecordId → Row D → Option β} {b : β}
    (h : b ∈ f.collect g) : ∃ rid r, f.row rid = some r ∧ g rid r = some b := by
  obtain ⟨rid, -, hb⟩ := List.mem_filterMap.mp h
  cases hr : f.row rid with
  | none =>
    rw [hr] at hb
    cases hb
  | some r =>
    rw [hr] at hb
    exact ⟨rid, r, hr, hb⟩

/-- Two rows of the table have different keys in a unique index. -/
theorem Indexed.attrCmp_ne (h : t.Indexed) {i : TableIndex D U} (hi : i ∈ t.indexes)
    (hu : i.unique = true) {d d' : D} {rest : Multiset D} (hc : t.contents = d ::ₘ d' ::ₘ rest) :
    i.attrCmp (i.keyOf d') (i.keyOf d) ≠ .eq := by
  have hd : d ∈ t.contents := by rw [hc]; exact Multiset.mem_cons_self ..
  obtain ⟨rid, r, hr, hrd⟩ := mem_collect hd
  obtain rfl := Option.some.inj hrd
  have hrest : (t.file.unbind rid).collect (fun _ r => some r.data) = d' ::ₘ rest :=
    (Multiset.cons_inj_right _).mp ((contents_unbind hr).symm.trans hc)
  have hd' : d' ∈ (t.file.unbind rid).collect fun _ r => some r.data := by
    rw [hrest]
    exact Multiset.mem_cons_self ..
  obtain ⟨rid', r', hr', hrd'⟩ := mem_collect hd'
  obtain rfl := Option.some.inj hrd'
  rw [RecordFile.unbind_row] at hr'
  split at hr'
  · cases hr'
  · rename_i hne
    exact (h i hi).attrCmp_ne hu hr' hr hne

/-- No index refuses a record that was in the table when the indexes listed all records. -/
theorem Backed.not_rejects (h : Backed t₀ t) (h₀ : t₀.Indexed) {d : D} {rest : Multiset D}
    (hc : t₀.contents = d ::ₘ rest + t.contents) (hd : r.data = d) (hfree : t.file.row rid = none) :
    ∀ i ∈ t.indexes, ¬ i.Rejects r.data rid := by
  intro i hi hrej
  subst hd
  obtain ⟨⟨i₀, hi₀, hdef⟩, hback⟩ := h i hi
  obtain ⟨hu, rid', r', hr', heq⟩ := hback.rejects hfree hrej
  have hcons : t₀.contents = r.data ::ₘ r'.data ::ₘ
      (rest + (t.file.unbind rid').collect fun _ r => some r.data) := by
    rw [hc, contents_unbind hr', Multiset.cons_add, Multiset.add_cons]
  rw [SameDef] at hdef
  rw [hdef] at hu heq
  exact h₀.attrCmp_ne hi₀ hu hcons heq

end Table

end Miniob.Db
