/-
  What the loops over a table's indexes do to the entries.

  `Holds i es` says that the tree of `i` is sound and lists `es`.  Inserting finds an equal key or
  adds the entry at its place (`Inserted`); deleting an entry that is there takes out exactly it.
  From this the loops: `insert_entry_of_indexes` either adds the entry to every index, or stops at
  the first index that has an equal key and leaves every index with the entries it had.
-/
import Miniob.Common.Related
import Miniob.Common.Run
import Miniob.Db.Table

namespace Miniob.Db

open Miniob.Common Miniob.Index Miniob.Storage

variable {D U : Type}

namespace TableIndex

/-- The tree of the index is sound and its leaves list `es`, and the key values are totally ordered: no key value
    that occurs is NULL. -/
structure Holds (i : TableIndex D U) (es : List (IndexKey U × RecordId)) : Prop
    extends IsIndex i.unique i.attrCmp i.zeroKey (fun _ => True) i.tree es where
  ordered : Std.TransCmp i.attrCmp

/-- `i'` is the same index as `i`, up to its tree. -/
def SameDef (i i' : TableIndex D U) : Prop := i' = { i with tree := i'.tree }

theorem SameDef.refl (i : TableIndex D U) : SameDef i i := rfl

theorem SameDef.trans {i j k : TableIndex D U} (h : SameDef i j) (h' : SameDef j k) :
    SameDef i k := by
  rw [SameDef] at h h' ⊢
  rw [h', h]

theorem SameDef.cmp {i i' : TableIndex D U} (h : SameDef i i') : i'.cmp = i.cmp := by
  rw [SameDef] at h
  rw [h]

theorem SameDef.entry {i i' : TableIndex D U} (h : SameDef i i') (record : D) (rid : RecordId) :
    i'.entry record rid = i.entry record rid := by
  rw [SameDef] at h
  rw [h]
  rfl

variable {i : TableIndex D U} {es : List (IndexKey U × RecordId)}

theorem Holds.sorted (h : i.Holds es) : es.Pairwise fun a b => i.cmp a.1 b.1 = .lt := by
  have := h.ordered
  exact h.tree.sorted

theorem Holds.unique {es' : List (IndexKey U × RecordId)} (h : i.Holds es) (h' : i.Holds es') :
    es = es' :=
  h.tree.leavesHold.unique h'.tree.leavesHold

/-- Entries with equal keys are the same entry. -/
theorem Holds.eq_of_cmp {a b : IndexKey U × RecordId} (h : i.Holds es) (ha : a ∈ es) (hb : b ∈ es)
    (hab : i.cmp a.1 b.1 = .eq) : a = b := by
  have := h.ordered
  exact eq_of_sorted h.sorted ha hb hab

theorem Holds.compare_self (h : i.Holds es) (key : IndexKey U) : i.cmp key key = .eq := by
  have := h.ordered
  exact Std.ReflCmp.compare_self

theorem Holds.nodup (h : i.Holds es) : es.Nodup :=
  h.sorted.imp fun {a b} hab hne => by
    rw [hne, h.compare_self] at hab
    cases hab

/-- The same entries are the same list. -/
theorem Holds.eq_of_mem_iff {i' : TableIndex D U} {es' : List (IndexKey U × RecordId)}
    (hdef : SameDef i i') (h : i.Holds es) (h' : i'.Holds es') (hmem : ∀ e, e ∈ es ↔ e ∈ es') :
    es = es' := by
  have := h.ordered
  have hs' := h'.sorted
  rw [hdef.cmp] at hs'
  exact eq_of_sorted_of_mem_iff Prod.fst h.sorted hs' hmem

/-- Some stored key is equal to the key of the record. -/
def Rejects (i : TableIndex D U) (record : D) (rid : RecordId) : Prop :=
  ∃ es, i.Holds es ∧ ∃ e ∈ es, i.cmp e.1 (i.entry record rid).1 = .eq

theorem Holds.rejects_iff (h : i.Holds es) (record : D) (rid : RecordId) :
    i.Rejects record rid ↔ ∃ e ∈ es, i.cmp e.1 (i.entry record rid).1 = .eq := by
  constructor
  · rintro ⟨es', h', he⟩
    rwa [h.unique h']
  · exact fun he => ⟨es, h, he⟩

/-- A lookup finds the entry of the record. -/
def Finds (i : TableIndex D U) (record : D) (rid : RecordId) : Prop :=
  ∃ es, i.Holds es ∧ i.entry record rid ∈ es

/-- `i'` is `i` with the entry of the record added. -/
def Inserted (record : D) (rid : RecordId) (i i' : TableIndex D U) : Prop :=
  SameDef i i' ∧ ∃ es es', i.Holds es ∧ i'.Holds es' ∧ ¬ i.Rejects record rid ∧
    ∀ e, e ∈ es' ↔ e = i.entry record rid ∨ e ∈ es

/-- `i'` holds the entries of `i`. -/
def SameEntries (i i' : TableIndex D U) : Prop :=
  SameDef i i' ∧ ∃ es, i.Holds es ∧ i'.Holds es

theorem Holds.sameEntries (h : i.Holds es) : SameEntries i i := ⟨.refl i, es, h, h⟩

theorem SameEntries.holds {i' : TableIndex D U} (h : SameEntries i i') (hi : i.Holds es) :
    i'.Holds es := by
  obtain ⟨-, es', h, h'⟩ := h
  rwa [hi.unique h]

theorem SameEntries.rejects_iff {i' : TableIndex D U} (h : SameEntries i i') (record : D) (rid : RecordId) :
    i'.Rejects record rid ↔ i.Rejects record rid := by
  obtain ⟨hdef, es, hes, hes'⟩ := h
  rw [hes'.rejects_iff, hes.rejects_iff, hdef.cmp, hdef.entry]

theorem SameEntries.trans {i' i'' : TableIndex D U} (h : SameEntries i i') (h' : SameEntries i' i'') :
    SameEntries i i'' := by
  obtain ⟨hdef, es, hes, hes'⟩ := h
  exact ⟨hdef.trans h'.1, es, hes, h'.holds hes'⟩

/-- The two ways in which an insertion ends. -/
theorem Holds.insertEntry (h : i.Holds es) (record : D) (rid : RecordId) :
    (i.Rejects record rid ∧ i.insertEntry record rid = .ok (.recordDuplicateKey, i)) ∨
    ∃ i', Inserted record rid i i' ∧ i.insertEntry record rid = .ok (.success, i') := by
  have := h.ordered
  rcases @insertEntry_spec _ _ i.cmp _ _ _ _ ⟨i.keyOf record, rid⟩ rid _ h.tree trivial
      h.capacity.leaf h.capacity.internal.1 with
    ⟨pre, e, post, rfl, he, hrun⟩ | ⟨pre, post, t', rfl, hpre, hpost, hrun, htree, hl, hi⟩
  · refine Or.inl ⟨⟨_, h, e, by simp, he⟩, ?_⟩
    rw [TableIndex.insertEntry, hrun]
  · have hnot : ¬ i.Rejects record rid := by
      rw [h.rejects_iff]
      rintro ⟨e, he, heq⟩
      rcases List.mem_append.mp he with he | he
      · exact absurd ((hpre e he).symm.trans heq) nofun
      · exact absurd ((gt_of_lt (hpost e he)).symm.trans heq) nofun
    refine Or.inr ⟨{ i with tree := t' }, ⟨rfl, _, pre ++ i.entry record rid :: post, h, ⟨⟨htree,
      h.capacity.congr hl hi, ?_⟩, h.ordered⟩, hnot, ?_⟩, ?_⟩
    · intro e he
      simp only [List.mem_append, List.mem_cons] at he
      rcases he with he | rfl | he
      · exact h.values e (List.mem_append_left _ he)
      · rfl
      · exact h.values e (List.mem_append_right _ he)
    · intro e
      simp only [List.mem_append, List.mem_cons]
      tauto
    · rw [TableIndex.insertEntry, hrun]

/-- The two ways in which a deletion ends; it may take out an entry of another record. -/
theorem Holds.deleteEntry (h : i.Holds es) (record : D) (rid : RecordId) :
    (¬ i.Rejects record rid ∧ i.deleteEntry record rid = .ok (.recordNotExist, i)) ∨
    ∃ e i' es', e ∈ es ∧ i.cmp e.1 (i.entry record rid).1 = .eq ∧ SameDef i i' ∧ i'.Holds es' ∧
      (∀ x, x ∈ es' ↔ x ∈ es ∧ x ≠ e) ∧ i.deleteEntry record rid = .ok (.success, i') := by
  have := h.ordered
  rcases deleteEntry_spec ⟨i.keyOf record, rid⟩ h.tree h.capacity with
    ⟨hne, hrun⟩ | ⟨pre, e, post, t', rfl, he, hrun, htree, hl, hi⟩
  · refine Or.inl ⟨?_, ?_⟩
    · rw [h.rejects_iff]
      rintro ⟨e, he, heq⟩
      exact hne e he heq
    · rw [TableIndex.deleteEntry, hrun]
  · have hsub : ∀ x ∈ pre ++ post, x ∈ pre ++ e :: post := fun x hx => by
      simp only [List.mem_append, List.mem_cons] at hx ⊢
      tauto
    have hnd := List.nodup_cons.mp (List.nodup_middle.mp h.nodup)
    refine Or.inr ⟨e, { i with tree := t' }, pre ++ post, by simp, he, rfl, ⟨⟨htree,
      h.capacity.congr hl hi, fun x hx => h.values x (hsub x hx)⟩, h.ordered⟩, fun x => ?_, ?_⟩
    · constructor
      · exact fun hx => ⟨hsub x hx, fun hxe => hnd.1 (hxe ▸ hx)⟩
      · rintro ⟨hx, hne⟩
        simp only [List.mem_append, List.mem_cons] at hx ⊢
        tauto
    · rw [TableIndex.deleteEntry, hrun]

theorem Rejects.insertEntry {record : D} {rid : RecordId} (h : i.Rejects record rid) :
    i.insertEntry record rid = .ok (.recordDuplicateKey, i) := by
  obtain ⟨es, hes, -⟩ := id h
  rcases hes.insertEntry record rid with ⟨-, hrun⟩ | ⟨i', ⟨-, _, _, _, _, hnot, -⟩, -⟩
  · exact hrun
  · exact absurd h hnot

/-- Deleting an entry that is there. -/
theorem Holds.deleteEntry_mem {record : D} {rid : RecordId} (h : i.Holds es)
    (hmem : i.entry record rid ∈ es) :
    ∃ i' es', SameDef i i' ∧ i'.Holds es' ∧ (∀ x, x ∈ es' ↔ x ∈ es ∧ x ≠ i.entry record rid) ∧
      i.deleteEntry record rid = .ok (.success, i') := by
  rcases h.deleteEntry record rid with ⟨hnot, -⟩ | ⟨e, i', es', he, heq, hdef, h', hes', hrun⟩
  · exact absurd ((h.rejects_iff record rid).mpr
      ⟨_, hmem, h.compare_self _⟩) hnot
  · rw [h.eq_of_cmp he hmem heq] at hes'
    exact ⟨i', es', hdef, h', hes', hrun⟩

/-- An insertion taken back. -/
theorem Inserted.takeBack {record : D} {rid : RecordId} {i' : TableIndex D U}
    (h : Inserted record rid i i') :
    ∃ i'', i'.deleteEntry record rid = .ok (.success, i'') ∧ SameEntries i i'' := by
  obtain ⟨hdef, es, es', h, h', hnot, hmem⟩ := h
  obtain ⟨i'', es'', hdef', h'', hmem', hrun⟩ := h'.deleteEntry_mem
    (by rw [hdef.entry]; exact (hmem _).mpr (Or.inl rfl))
  have hfresh : i.entry record rid ∉ es := fun hin => hnot
    ((h.rejects_iff record rid).mpr ⟨_, hin, h.compare_self _⟩)
  have heq : es = es'' := by
    refine h.eq_of_mem_iff (hdef.trans hdef') h'' fun e => ?_
    rw [hmem', hmem, hdef.entry]
    constructor
    · exact fun he => ⟨Or.inr he, fun hee => hfresh (hee ▸ he)⟩
    · rintro ⟨rfl | he, hne⟩
      · exact absurd rfl hne
      · exact he
  exact ⟨i'', hrun, hdef.trans hdef', es, h, heq ▸ h''⟩

/-- The tree of the index is sound. -/
def Sound (i : TableIndex D U) : Prop := ∃ es, i.Holds es

/-- `i'` is `i` with the entry of the record, which it held, taken out. -/
def Deleted (record : D) (rid : RecordId) (i i' : TableIndex D U) : Prop :=
  SameDef i i' ∧ ∃ es es', i.Holds es ∧ i'.Holds es' ∧ i.entry record rid ∈ es ∧
    ∀ e, e ∈ es' ↔ e ∈ es ∧ e ≠ i.entry record rid

/-- `i'` is `i` without the entry whose key is equal to that of the record. -/
def Removed (record : D) (rid : RecordId) (i i' : TableIndex D U) : Prop :=
  SameDef i i' ∧ ∃ es es' e, i.Holds es ∧ i'.Holds es' ∧ e ∈ es ∧ i.cmp e.1 (i.entry record rid).1 = .eq ∧
    ∀ x, x ∈ es' ↔ x ∈ es ∧ x ≠ e

/-- The entry that is removed is not the one that was added before, or the same index comes out. -/
theorem SameEntries.removed {record : D} {rid : RecordId} {i' i'' : TableIndex D U} (h : SameEntries i i')
    (h' : Removed record rid i' i'') : Removed record rid i i'' := by
  obtain ⟨hdef, es, es', e, hes, hes', he, heq, hmem⟩ := h'
  obtain ⟨hdef₀, es₀, h₀, h₀'⟩ := h
  obtain rfl := hes.unique h₀'
  rw [hdef₀.cmp, hdef₀.entry] at heq
  exact ⟨hdef₀.trans hdef, es, es', e, h₀, hes', he, heq, hmem⟩

/-- An index that loses an entry so has refused the record. -/
theorem Removed.rejects {record : D} {rid : RecordId} {i' : TableIndex D U} (h : Removed record rid i i') :
    i.Rejects record rid := by
  obtain ⟨-, es, -, e, hes, -, he, heq, -⟩ := h
  exact ⟨es, hes, e, he, heq⟩

end TableIndex

/-! ## The loops -/

open TableIndex

variable {record : D} {rid : RecordId}

/-- What has just been inserted can be taken back. -/
theorem takeBackEntries_spec {orig done : List (TableIndex D U)}
    (h : List.Forall₂ (Inserted record rid) orig done) :
    ∃ back, takeBackEntries record rid done = .ok back ∧ List.Forall₂ SameEntries orig back := by
  induction h with
  | nil => exact ⟨[], rfl, .nil⟩
  | cons hi _ ih =>
    obtain ⟨back, hback, hsame⟩ := ih
    obtain ⟨i'', hdel, hi''⟩ := hi.takeBack
    refine ⟨i'' :: back, ?_, .cons hi'' hsame⟩
    rw [takeBackEntries, bind_ok _ hdel]
    show (takeBackEntries record rid _ >>= fun done => pure (i'' :: done)) = _
    rw [bind_ok _ hback]
    rfl

/-- **`insert_entry_of_indexes`.**  Every index gets the entry, or the first one that has an equal
    key refuses it and the entries are what they were. -/
theorem insertEntryOfIndexes_spec : ∀ {rest orig done : List (TableIndex D U)},
    List.Forall₂ (Inserted record rid) orig done → (∀ i ∈ rest, i.Sound) →
    (∃ rest', insertEntryOfIndexes record rid done rest = .ok (.success, done.reverse ++ rest') ∧
      List.Forall₂ (Inserted record rid) rest rest') ∨
    ∃ front i back indexes, rest = front ++ i :: back ∧ (∀ j ∈ front, ¬ j.Rejects record rid) ∧
      i.Rejects record rid ∧
      insertEntryOfIndexes record rid done rest = .ok (.recordDuplicateKey, indexes) ∧
      List.Forall₂ SameEntries (orig.reverse ++ rest) indexes
  | [], _, done, _, _ => by
    refine Or.inl ⟨[], ?_, .nil⟩
    rw [insertEntryOfIndexes, List.append_nil]
  -- the induction is on the indexes that are left, with those already entered in `done`
  | i :: rest, orig, done, hdone, hsound => by
    obtain ⟨es, hi⟩ := hsound i (by simp)
    have hsound' : ∀ j ∈ rest, j.Sound := fun j hj => hsound j (List.mem_cons_of_mem i hj)
    rcases hi.insertEntry record rid with ⟨hrej, hrun⟩ | ⟨i', hi', hrun⟩
    -- this index refuses the row: the entries made so far are taken back
    · obtain ⟨back, hback, hsame⟩ := takeBackEntries_spec hdone
      refine Or.inr ⟨[], i, rest, back.reverse ++ i :: rest, rfl, List.forall_mem_nil _, hrej, ?_, ?_⟩
      · rw [insertEntryOfIndexes, bind_ok _ hrun]
        show (takeBackEntries record rid done >>= fun done =>
          pure (RC.recordDuplicateKey, done.reverse ++ i :: rest)) = _
        rw [bind_ok _ hback]
        rfl
      · refine List.rel_append (List.rel_reverse hsame) (.cons hi.sameEntries ?_)
        refine List.forall₂_same.mpr fun j hj => ?_
        obtain ⟨es', hj'⟩ := hsound' j hj
        exact hj'.sameEntries
    -- the entry is made: the loop goes on with this index among those done
    · have hcode : insertEntryOfIndexes record rid done (i :: rest)
          = insertEntryOfIndexes record rid (i' :: done) rest := by
        rw [insertEntryOfIndexes, bind_ok _ hrun]
        rfl
      have hnot : ¬ i.Rejects record rid := by
        obtain ⟨-, _, _, _, _, hnot, -⟩ := hi'
        exact hnot
      rcases insertEntryOfIndexes_spec (.cons hi' hdone) hsound' with
        ⟨rest', hok, hins⟩ | ⟨front, k, back, indexes, rfl, hfront, hk, hdup, hsame⟩
      · refine Or.inl ⟨i' :: rest', ?_, .cons hi' hins⟩
        rw [hcode, hok, List.reverse_cons, List.append_assoc]
        rfl
      · refine Or.inr ⟨i :: front, k, back, indexes, rfl, ?_, hk, hcode.trans hdup, ?_⟩
        · intro j hj
          rcases List.mem_cons.mp hj with rfl | hj
          · exact hnot
          · exact hfront j hj
        · rw [List.reverse_cons, List.append_assoc] at hsame
          exact hsame

/-- What `delete_entry_of_indexes` makes of the indexes when `insert_record` calls it after a refusal: it takes an entry
    out of each index that would refuse the record, and stops at the first one that would not. -/
inductive SecondPass (record : D) (rid : RecordId) : List (TableIndex D U) → List (TableIndex D U) → Prop where
  | stop {is is' : List (TableIndex D U)} : (∀ i ∈ is.head?, ¬ i.Rejects record rid) →
      List.Forall₂ SameEntries is is' → SecondPass record rid is is'
  | removed {i i' : TableIndex D U} {rest rest' : List (TableIndex D U)} : Removed record rid i i' →
      SecondPass record rid rest rest' → SecondPass record rid (i :: rest) (i' :: rest')

/-- **The second pass.** -/
theorem deleteEntryOfIndexes_spec : ∀ {is : List (TableIndex D U)} {rc : RC}, (∀ i ∈ is, i.Sound) →
    ∃ rc' is', deleteEntryOfIndexes record rid false rc is = .ok (rc', is') ∧ SecondPass record rid is is'
  | [], rc, _ => ⟨rc, [], rfl, .stop (fun _ hi => by cases hi) .nil⟩
  | i :: rest, _, h => by
    obtain ⟨es, hi⟩ := h i (by simp)
    have hrest : ∀ j ∈ rest, j.Sound := fun j hj => h j (List.mem_cons_of_mem i hj)
    rcases hi.deleteEntry record rid with ⟨hnot, hrun⟩ | ⟨e, i', es', he, heq, hdef, hi', hmem, hrun⟩
    · -- no equal key: the loop stops here
      refine ⟨.recordNotExist, i :: rest, ?_, .stop ?_ ?_⟩
      · rw [deleteEntryOfIndexes, bind_ok _ hrun]
        rfl
      · intro j hj
        obtain rfl := Option.some.inj hj
        exact hnot
      · refine List.forall₂_same.mpr fun j hj => ?_
        obtain ⟨es, hes⟩ := h j hj
        exact hes.sameEntries
    · obtain ⟨rc', rest', hok, hpass⟩ := deleteEntryOfIndexes_spec hrest
      refine ⟨rc', i' :: rest', ?_, .removed ⟨hdef, es, es', e, hi, hi', he, heq, hmem⟩ hpass⟩
      rw [deleteEntryOfIndexes, bind_ok _ hrun]
      show (deleteEntryOfIndexes record rid false .success rest >>= fun x => pure (x.1, i' :: x.2)) = _
      rw [bind_ok _ hok]
      rfl

/-- The pass over indexes that hold the same entries. -/
theorem SecondPass.of_same {is js ks : List (TableIndex D U)} (hsame : List.Forall₂ SameEntries is js)
    (h : SecondPass record rid js ks) : SecondPass record rid is ks := by
  induction h generalizing is with
  | stop hhead hrest =>
    refine .stop (fun i hi => ?_) (forall₂_comp hsame hrest fun _ _ _ h h' => h.trans h')
    cases hsame with
    | nil => cases hi
    | cons hij _ =>
      obtain rfl := Option.some.inj hi
      exact fun hrej => hhead _ rfl ((hij.rejects_iff record rid).mpr hrej)
  | removed hi _ ih =>
    cases hsame with
    | cons hij hrest => exact .removed (hij.removed hi) (ih hrest)

/-- `delete_record` finds the entry in every index. -/
theorem deleteEntries_spec : ∀ {is : List (TableIndex D U)},
    (∀ i ∈ is, ∃ es, i.Holds es ∧ i.entry record rid ∈ es) →
    ∃ is', deleteEntries record rid is = .ok is' ∧ List.Forall₂ (Deleted record rid) is is'
  | [], _ => ⟨[], rfl, .nil⟩
  | i :: rest, h => by
    obtain ⟨es, hi, hmem⟩ := h i (by simp)
    obtain ⟨i', es', hdef, hi', hes', hrun⟩ := hi.deleteEntry_mem hmem
    obtain ⟨rest', hrest, hdel⟩ := deleteEntries_spec fun j hj => h j (List.mem_cons_of_mem i hj)
    refine ⟨i' :: rest', ?_, .cons ⟨hdef, es, es', hi, hi', hmem, hes'⟩ hdel⟩
    rw [deleteEntries, bind_ok _ hrun]
    show (deleteEntries record rid rest >>= fun rest => pure (i' :: rest)) = _
    rw [bind_ok _ hrest]
    rfl

/-! ## Soundness

  Whatever an index holds, a call on it leaves the tree sound. -/

/-- The index stays the same up to its tree, which stays sound. -/
def Keeps (i i' : TableIndex D U) : Prop := SameDef i i' ∧ i'.Sound

theorem TableIndex.Sound.deleteEntry {i : TableIndex D U} (h : i.Sound) (record : D)
    (rid : RecordId) :
    ∃ rc i', i.deleteEntry record rid = .ok (rc, i') ∧ Keeps i i' ∧
      (rc = .recordNotExist ∧ i' = i ∨ rc = .success) := by
  obtain ⟨es, h⟩ := h
  rcases h.deleteEntry record rid with ⟨-, hrun⟩ | ⟨e, i', es', -, -, hdef, h', -, hrun⟩
  · exact ⟨_, i, hrun, ⟨.refl i, es, h⟩, Or.inl ⟨rfl, rfl⟩⟩
  · exact ⟨_, i', hrun, ⟨hdef, es', h'⟩, Or.inr rfl⟩

theorem keeps_refl {is : List (TableIndex D U)} (h : ∀ i ∈ is, i.Sound) :
    List.Forall₂ Keeps is is :=
  List.forall₂_same.mpr fun i hi => ⟨.refl i, h i hi⟩

theorem keeps_of_sameEntries {is is' : List (TableIndex D U)} (h : List.Forall₂ SameEntries is is') :
    List.Forall₂ Keeps is is' :=
  h.imp fun _ _ hi => ⟨hi.1, hi.2.choose, hi.2.choose_spec.2⟩

theorem SecondPass.keeps {is is' : List (TableIndex D U)} (h : SecondPass record rid is is') :
    List.Forall₂ Keeps is is' := by
  induction h with
  | stop _ hsame => exact keeps_of_sameEntries hsame
  | removed hi _ ih =>
    obtain ⟨hdef, _, es', _, -, hes', -⟩ := hi
    exact .cons ⟨hdef, es', hes'⟩ ih

/-- Deletions bring in no entry. -/
theorem deleteEntries_keeps : ∀ {is is' : List (TableIndex D U)}, (∀ i ∈ is, i.Sound) →
    deleteEntries record rid is = .ok is' → List.Forall₂ Keeps is is'
  | [], _, _, hrun => by
    obtain rfl := Except.ok.inj hrun
    exact .nil
  | i :: rest, is', h, hrun => by
    obtain ⟨rc, i', hdel, hi', -⟩ := (h i (by simp)).deleteEntry record rid
    rw [deleteEntries, bind_ok _ hdel] at hrun
    dsimp only at hrun
    split at hrun
    · cases hrun
    · obtain ⟨rest', hrest, hrun⟩ := ok_of_bind hrun
      obtain rfl := Except.ok.inj hrun
      exact .cons hi' (deleteEntries_keeps (fun j hj => h j (List.mem_cons_of_mem i hj)) hrest)

theorem keeps_trans {is js ks : List (TableIndex D U)} (h : List.Forall₂ Keeps is js)
    (h' : List.Forall₂ Keeps js ks) : List.Forall₂ Keeps is ks :=
  forall₂_comp h h' fun _ _ _ hi hj => ⟨hi.1.trans hj.1, hj.2⟩

theorem keeps_sound {is is' : List (TableIndex D U)} (h : List.Forall₂ Keeps is is') :
    ∀ i ∈ is', i.Sound :=
  forall₂_right h fun _ _ hi => hi.2

end Miniob.Db
