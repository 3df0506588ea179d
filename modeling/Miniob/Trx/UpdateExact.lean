/-
  When UPDATE does all or nothing, to the indexes as well.

  1. **A lost entry** — if the first index refuses a new row, it loses the entry that stood in the way, and
     the undo never gives it back (`Missing`): the row of the entry cannot be deleted any more, and the old
     rows have other keys.
  2. **Admitted insertions** — so UPDATE does all or nothing exactly if the first index refuses none of the
     insertions (`openUpdate_allOrNothing_iff`).  The old rows are never refused when they are put back.
  3. **Keys** — whether an insertion is admitted depends on the keys of the rows (`rowsAdmitted_iff`).
-/
import Miniob.Trx.UniqueKeys
import Miniob.Trx.UpdateUndo

namespace Miniob.Db

open Miniob.Common Miniob.Index Miniob.Storage TableIndex

variable {D U : Type} {t t' : Table D U} {i₀ i i' : TableIndex D U} {rid : RecordId} {r r' : Row D} {rc : RC}

/-! ## A lost entry -/

/-- What an insertion does to the indexes. -/
theorem Table.Sound.insertRecord_keeps (h : t.Sound) {p : RecordFile D → Except RC RecordId}
    {rid : Option RecordId} (hrun : t.insertRecord p r = .ok (rc, rid, t')) :
    List.Forall₂ Keeps t.indexes t'.indexes := by
  cases h.insertRecord p r with
  | refused _ hrun' =>
    cases hrun.symm.trans hrun'
    exact keeps_refl h
  | stored _ hall hrun' =>
    cases hrun.symm.trans hrun'
    refine hall.imp fun i i' hi => ?_
    obtain ⟨hdef, -, es', -, hes', -⟩ := hi
    exact ⟨hdef, es', hes'⟩
  | rejectedLater _ _ _ hsame hrun' =>
    cases hrun.symm.trans hrun'
    exact keeps_of_sameEntries hsame
  | rejectedFirst _ _ _ _ hpass hrun' =>
    cases hrun.symm.trans hrun'
    exact hpass.keeps

/-- What a deletion does to the indexes. -/
theorem Table.Sound.deleteRecord_keeps {record : D} (h : t.Sound)
    (hrun : t.deleteRecord record rid = .ok (rc, t')) : List.Forall₂ Keeps t.indexes t'.indexes := by
  unfold Table.deleteRecord at hrun
  obtain ⟨indexes, hdel, hrun⟩ := ok_of_bind hrun
  have hkeeps := deleteEntries_keeps h hdel
  split at hrun
  · cases hrun
    exact hkeeps
  · cases hrun
    exact hkeeps

/-- The row is stored, and the first index has no entry with its key. -/
structure Missing (i₀ : TableIndex D U) (rid : RecordId) (r : Row D) (t : Table D U) : Prop where
  row : t.file.row rid = some r
  sound : t.Sound
  head : ∃ i rest, t.indexes = i :: rest ∧ SameDef i₀ i ∧ ¬ i.Rejects r.data rid

theorem Shrinks.not_rejects (h : Shrinks i i') (hnot : ¬ i.Rejects r.data rid) : ¬ i'.Rejects r.data rid := by
  obtain ⟨hdef, es, es', hes, hes', hmem⟩ := h
  rw [hes.rejects_iff] at hnot
  rw [hes'.rejects_iff, hdef.cmp, hdef.entry]
  rintro ⟨e, he, heq⟩
  exact hnot ⟨e, hmem e he, heq⟩

/-- Something is missing, so the index does not list the rows. -/
theorem Missing.not_indexed (h : Missing i₀ rid r t) : ¬ t.Indexed := by
  obtain ⟨i, rest, hi, -, hnot⟩ := h.head
  intro hindexed
  obtain ⟨es, hes, hmem⟩ := (hindexed i (by rw [hi]; simp)).holds h.row
  exact hnot ((hes.rejects_iff _ _).mpr ⟨_, hmem, hes.compare_self _⟩)

/-- **`delete_record`** of the row itself runs into the assertion. -/
theorem Missing.deleteRecord (h : Missing i₀ rid r t) {rid' : RecordId}
    (hr' : t.file.row rid' = some r') (hrun : t.deleteRecord r'.data rid' = .ok (rc, t')) :
    Missing i₀ rid r t' := by
  obtain ⟨i, rest, hi, hdef, hnot⟩ := h.head
  have hsound : t'.Sound := h.sound.deleteRecord_sound hrun
  unfold Table.deleteRecord at hrun
  obtain ⟨is, hdel, hrun⟩ := ok_of_bind hrun
  rw [hr'] at hrun
  cases hrun
  have hne : rid ≠ rid' := by
    rintro rfl
    obtain rfl := Option.some.inj (h.row.symm.trans hr')
    obtain ⟨es, hes⟩ := h.sound i (by rw [hi]; simp)
    rcases hes.deleteEntry r.data rid with ⟨-, hrun⟩ | ⟨e, -, -, he, heq, -⟩
    · rw [hi, deleteEntries, bind_ok _ hrun] at hdel
      cases hdel
    · exact hnot ((hes.rejects_iff _ _).mpr ⟨e, he, heq⟩)
  refine ⟨(RecordFile.unbind_row_of_ne _ hne).trans h.row, hsound, ?_⟩
  have hloses := deleteEntries_loses h.sound hdel
  rw [hi] at hloses
  cases hloses with
  | cons hi' _ => exact ⟨_, _, rfl, hdef.trans hi'.1, hi'.shrinks.not_rejects hnot⟩

/-- **`insert_record`** of a row with another key. -/
theorem Missing.insertRecord (h : Missing i₀ rid r t) (hu : i₀.unique = true)
    (hne : i₀.attrCmp (i₀.keyOf r'.data) (i₀.keyOf r.data) ≠ .eq) {p : Placement D} {n : Nat}
    {rid' : Option RecordId} (hrun : t.insertRecord (p.place n) r' = .ok (rc, rid', t')) :
    Missing i₀ rid r t' := by
  -- the row is missing in the first index, which is the one asked first
  obtain ⟨i, rest, hi, hdef, hnot⟩ := h.head
  have hsound : t'.Sound := h.sound.insertRecord_sound hrun
  -- the new row has another key, so its entry does not stand in the way of the missing one
  by_cases hrc : rc = .success
  · subst hrc
    cases h.sound.insertRecord (p.place n) r' with
    | refused hp hrun' =>
      cases hrun.symm.trans hrun'
      exact absurd rfl (p.refused n _ _ hp)
    | rejectedLater _ _ _ _ hrun' => cases hrun.symm.trans hrun'
    | rejectedFirst _ _ _ _ _ hrun' => cases hrun.symm.trans hrun'
    | stored hp hall hrun' =>
      rename_i rid₁ indexes
      cases hrun.symm.trans hrun'
      have hfree := p.free n _ _ hp
      refine ⟨?_, hsound, ?_⟩
      · dsimp only
        rw [RecordFile.bind_row_of_ne, h.row]
        rintro rfl
        cases hfree.symm.trans h.row
      · rw [hi] at hall
        cases hall with
        | cons hi' _ =>
          obtain ⟨hdef', es, es', hes, hes', -, hmem⟩ := hi'
          refine ⟨_, _, rfl, hdef.trans hdef', ?_⟩
          rw [hes.rejects_iff] at hnot
          rw [hes'.rejects_iff, hdef'.cmp, hdef'.entry]
          rintro ⟨e, he, heq⟩
          rcases (hmem e).mp he with rfl | he
          · rw [SameDef] at hdef
            have hunique : i.unique = true := by rw [hdef]; exact hu
            rw [TableIndex.cmp, hunique, keyCmp_true] at heq
            refine hne ?_
            rw [hdef] at heq
            exact heq
          · exact hnot ⟨e, he, heq⟩
  -- a row that is refused leaves the file and the indexes as they were
  · obtain ⟨hfile, hshrinks⟩ := h.sound.insertRecord_fails hrun hrc
    refine ⟨hfile ▸ h.row, hsound, ?_⟩
    rw [hi] at hshrinks
    generalize t'.indexes = is' at hshrinks
    cases hshrinks with
    | cons hi' _ => exact ⟨_, _, rfl, hdef.trans hi'.1, hi'.not_rejects hnot⟩

/-- **The loss.**  The first index refuses the row. -/
theorem Table.Indexed.insertRecord_missing (h : t.Indexed) {p : Placement D} {n : Nat}
    (hp : p.place n t.file = .ok rid) {rest : List (TableIndex D U)} (hi : t.indexes = i :: rest)
    (hrej : i.Rejects r.data rid) : i.unique = true ∧ ∃ rc rid' t' rid₁ r₁,
      t.insertRecord (p.place n) r = .ok (rc, rid', t') ∧ rc ≠ .success ∧ Missing i rid₁ r₁ t' := by
  have hlists := h i (by rw [hi]; simp)
  refine ⟨((hlists.rejects_iff (p.free n _ _ hp)).mp hrej).1, ?_⟩
  have hrejected : ∃ rid' i' rest', t.insertRecord (p.place n) r = .ok (.recordDuplicateKey, rid',
      ⟨(t.file.bind rid r).unbind rid, i' :: rest'⟩) ∧ ¬ SameEntries i i' := by
    cases h.sound.insertRecord (p.place n) r with
    | refused hp' _ => cases hp.symm.trans hp'
    | stored hp' hall _ =>
      cases hp.symm.trans hp'
      exact absurd hrej (not_rejects_of_inserted hall i (by rw [hi]; simp))
    | rejectedLater hp' hi' hnot _ _ =>
      cases hp.symm.trans hp'
      cases hi.symm.trans hi'
      exact absurd hrej hnot
    | rejectedFirst hp' hi' _ hlost _ hrun =>
      cases hp.symm.trans hp'
      cases hi.symm.trans hi'
      exact ⟨_, _, _, hrun, hlost⟩
  obtain ⟨rid', i', rest', hrun, hlost⟩ := hrejected
  obtain ⟨hfile, hshrinks⟩ := h.sound.insertRecord_fails hrun (by simp)
  have hsound := h.sound.insertRecord_sound hrun
  rw [hi] at hshrinks
  cases hshrinks with
  | cons hi' _ =>
    obtain ⟨hdef, es, es', hes, hes', hsub⟩ := hi'
    obtain ⟨es₁, hes₁, -, hmem⟩ := hlists
    obtain rfl := hes.unique hes₁
    -- an entry that is gone
    have hgone : ∃ e ∈ es, e ∉ es' := by
      by_contra hall
      push Not at hall
      refine hlost ⟨hdef, es, hes, ?_⟩
      rwa [hes.eq_of_mem_iff hdef hes' fun e => ⟨hall e, hsub e⟩]
    obtain ⟨e, he, hnot⟩ := hgone
    obtain ⟨rid₁, r₁, hr₁, rfl⟩ := (hmem e).mp he
    refine ⟨_, _, _, rid₁, r₁, hrun, by simp, ⟨?_, hsound, i', rest', rfl, hdef, ?_⟩⟩
    · exact (congrArg (fun f => f.row rid₁) hfile).trans hr₁
    · rw [hes'.rejects_iff, hdef.cmp, hdef.entry]
      rintro ⟨e', he', heq⟩
      exact hnot (hes.eq_of_cmp (hsub e' he') he heq ▸ he')

end Miniob.Db

namespace Miniob.Trx

open Miniob.Common Miniob.Index Miniob.Db Miniob.Storage TableIndex

variable {D U : Type}

/-! ## The loops -/

section Loops

variable {t t' : Table D U} {p : Placement D} {n n' : Nat} {rc : RC} {i₀ : TableIndex D U} {rid : RecordId}
  {r : Row D}

/-- A row whose entry is missing stays so when rows are deleted. -/
theorem deleteRows_missing {rows : List (RecordId × Row D)} (h : Missing i₀ rid r t)
    (hrows : AreStored t.file rows) (hrun : deleteRows t rows = .ok (rc, t')) : Missing i₀ rid r t' := by
  induction rows generalizing t with
  | nil =>
    cases hrun
    exact h
  | cons o rows ih =>
    rw [deleteRows] at hrun
    obtain ⟨⟨rc₁, t₁⟩, hdel, hrun⟩ := ok_of_bind hrun
    have ho := hrows.2 o (by simp)
    have h₁ := h.deleteRecord ho hdel
    obtain ⟨rfl, hfile⟩ := Table.deleteRecord_stored ho hdel
    dsimp only at hrun
    rw [if_neg (by simp)] at hrun
    exact ih h₁ (hfile ▸ hrows.tail) hrun

/-- And when rows with other keys are inserted. -/
theorem insertRows_missing {rows : List (Row D)} (h : Missing i₀ rid r t) (hu : i₀.unique = true)
    (hne : ∀ r' ∈ rows, i₀.attrCmp (i₀.keyOf r'.data) (i₀.keyOf r.data) ≠ .eq)
    (hrun : insertRows p n t rows = .ok (rc, n', t')) : Missing i₀ rid r t' := by
  induction rows generalizing t n with
  | nil =>
    cases hrun
    exact h
  | cons r' rows ih =>
    rw [insertRows] at hrun
    obtain ⟨⟨rc₁, rid₁, t₁⟩, hins, hrun⟩ := ok_of_bind hrun
    have h₁ := h.insertRecord hu (hne r' (by simp)) hins
    dsimp only at hrun
    split at hrun
    · cases hrun
      exact h₁
    · exact ih h₁ (fun r'' hr'' => hne r'' (List.mem_cons_of_mem _ hr'')) hrun

/-- The second loop comes to a row that the first index refuses. -/
theorem insertNewRows_missing {rows : List (Row D)} : ∀ {t : Table D U} {n : Nat}
    {done : List (RecordId × Row D)}, t.Indexed → ¬ RowsAdmitted p n t rows →
    ∃ rc n' done' t' i rid r, insertNewRows p n t done rows = .ok (rc, n', done', t') ∧ rc ≠ .success ∧
      (∃ i₁ rest, t.indexes = i₁ :: rest ∧ SameDef i₁ i) ∧ i.unique = true ∧ Missing i rid r t' := by
  induction rows with
  | nil => exact fun {t n done} _ hnot => absurd trivial hnot
  | cons r rows ih =>
    intro t n done h hnot
    by_cases hadm : t.Admits (p.place n) r
    · obtain ⟨rc₁, rid₁, t₁, hins, h₁, hfail, hok⟩ := h.insertRecord hadm
      have hnext : ∃ rid₂ t₂, t.insertRecord (p.place n) r = .ok (.success, rid₂, t₂) ∧
          ¬ RowsAdmitted p (n + 1) t₂ rows := by
        by_contra hall
        push Not at hall
        exact hnot ⟨hadm, hall⟩
      obtain ⟨rid₂, t₂, hins₂, hnot₂⟩ := hnext
      cases hins.symm.trans hins₂
      obtain ⟨rid', rfl, -, -⟩ := hok rfl
      obtain ⟨rc, n', done', t', i, rid, r', hrun, hrc, ⟨i₁, rest, hi₁, hdef⟩, hu, hmissing⟩ :=
        @ih t₁ (n + 1) ((rid', r) :: done) h₁ hnot₂
      have hkeeps := h.sound.insertRecord_keeps hins
      rw [hi₁] at hkeeps
      generalize hts : t.indexes = is at hkeeps
      cases hkeeps with
      | cons hk _ =>
        refine ⟨rc, n', done', t', i, rid, r', ?_, hrc, ⟨_, _, rfl, hk.1.trans hdef⟩, hu, hmissing⟩
        rw [insertNewRows, bind_ok _ hins]
        exact hrun
    · unfold Table.Admits at hadm
      push Not at hadm
      obtain ⟨rid, i, rest, hp, hi, hrej⟩ := hadm
      obtain ⟨hu, rc, rid', t', rid₁, r₁, hins, hrc, hmissing⟩ := h.insertRecord_missing hp hi hrej
      refine ⟨rc, n + 1, done, t', i, rid₁, r₁, ?_, hrc, ⟨i, rest, hi, .refl i⟩, hu, hmissing⟩
      rw [insertNewRows, bind_ok _ hins]
      dsimp only
      split
      · exact absurd rfl hrc
      · rfl

end Loops

/-! ## Admitted insertions -/

section Admitted

variable {t₀ t t₁ : Table D U} {p : Placement D} {n : Nat} {capacity : Nat}

/-- Rows that were in the table are not refused when they are put back. -/
theorem rowsAdmitted_back (h₀ : t₀.Indexed) {rows : List (Row D)} : ∀ {t : Table D U} {n : Nat},
    Table.Backed t₀ t → t₀.contents = (rows.map Row.data : List D) + t.contents →
    RowsAdmitted p n t rows := by
  induction rows with
  | nil => exact fun _ _ => trivial
  | cons r rows ih =>
    intro t n hback hcontents
    have hcons : t₀.contents = r.data ::ₘ (rows.map Row.data : List D) + t.contents := hcontents
    constructor
    · intro rid i rest hp hi
      exact hback.not_rejects h₀ hcons rfl (p.free n _ _ hp) i (by rw [hi]; simp)
    · intro rid t₁ hins
      cases Table.insertRecord_file hins with
      | rejected hrc _ => exact absurd rfl hrc
      | stored hfree hfile =>
        refine ih (hback.insertRecord hins).1 ?_
        rw [Table.contents_bind hfree hfile, Multiset.add_cons, ← Multiset.cons_add]
        exact hcons

/-- A unique index has the key of the data, if the data `taken` are those of the rows. -/
def Clash (i : TableIndex D U) (taken : D → Prop) (data : D) : Prop :=
  i.unique = true ∧ ∃ d, taken d ∧ i.attrCmp (i.keyOf d) (i.keyOf data) = .eq

/-- The rows are inserted one after the other until one has a key that some index has already: this is
    not the first index. -/
def FirstIndexSpared (is : List (TableIndex D U)) : (D → Prop) → List D → Prop
  | _, [] => True
  | taken, data :: rows => (∀ i rest, is = i :: rest → ¬ Clash i taken data) ∧
    ((∀ i ∈ is, ¬ Clash i taken data) → FirstIndexSpared is (fun d => d = data ∨ taken d) rows)

/-- The data of the rows of a file. -/
def Stores (f : RecordFile D) (data : D) : Prop := ∃ rid r, f.row rid = some r ∧ r.data = data

/-- The file stores what it has stored, and the new row. -/
theorem stores_bind {f : RecordFile D} {rid : RecordId} {r : Row D} (hfree : f.row rid = none) :
    Stores (f.bind rid r) = fun d => d = r.data ∨ Stores f d := by
  funext d
  refine propext ⟨?_, ?_⟩
  · rintro ⟨rid', r', hr', rfl⟩
    by_cases heq : rid' = rid
    · subst heq
      rw [RecordFile.bind_row_self] at hr'
      exact Or.inl (congrArg Row.data (Option.some.inj hr')).symm
    · rw [RecordFile.bind_row_of_ne _ _ heq] at hr'
      exact Or.inr ⟨rid', r', hr', rfl⟩
  · rintro (rfl | ⟨rid', r', hr', rfl⟩)
    · exact ⟨rid, r, RecordFile.bind_row_self .., rfl⟩
    · refine ⟨rid', r', ?_, rfl⟩
      rw [RecordFile.bind_row_of_ne, hr']
      rintro rfl
      cases hfree.symm.trans hr'

theorem clash_iff {i i' : TableIndex D U} (h : SameDef i i') {taken : D → Prop} {data : D} :
    Clash i' taken data ↔ Clash i taken data := by
  rw [SameDef] at h
  rw [h]
  rfl

/-- Whether the first index is spared depends on the definitions of the indexes, not on their entries. -/
theorem firstIndexSpared_iff {is is' : List (TableIndex D U)} (h : List.Forall₂ SameDef is is')
    {rows : List D} : ∀ {taken : D → Prop},
      FirstIndexSpared is' taken rows ↔ FirstIndexSpared is taken rows := by
  have hall : ∀ {taken : D → Prop} {data : D},
      (∀ i ∈ is', ¬ Clash i taken data) ↔ ∀ i ∈ is, ¬ Clash i taken data := by
    intro taken data
    induction h with
    | nil => exact Iff.rfl
    | cons hdef _ ih => rw [List.forall_mem_cons, List.forall_mem_cons, clash_iff hdef, ih]
  have hhead : ∀ {taken : D → Prop} {data : D}, (∀ i rest, is' = i :: rest → ¬ Clash i taken data) ↔
      ∀ i rest, is = i :: rest → ¬ Clash i taken data := by
    intro taken data
    cases h with
    | nil => exact Iff.rfl
    | cons hdef _ =>
      constructor
      · rintro hnot i rest ⟨⟩
        exact fun hclash => hnot _ _ rfl ((clash_iff hdef).mpr hclash)
      · rintro hnot i rest ⟨⟩
        exact fun hclash => hnot _ _ rfl ((clash_iff hdef).mp hclash)
  induction rows with
  | nil => exact Iff.rfl
  | cons data rows ih =>
    intro taken
    rw [FirstIndexSpared, FirstIndexSpared, hhead, hall, ih]

/-- An index that lists the rows refuses a key that one of them has. -/
theorem rejects_iff_clash {i : TableIndex D U} {rid : RecordId} {r : Row D} (h : i.Lists t.file)
    (hfree : t.file.row rid = none) : i.Rejects r.data rid ↔ Clash i (Stores t.file) r.data := by
  rw [h.rejects_iff hfree]
  refine and_congr_right fun _ => ⟨?_, ?_⟩
  · rintro ⟨rid', r', hr', heq⟩
    exact ⟨r'.data, ⟨rid', r', hr', rfl⟩, heq⟩
  · rintro ⟨d, ⟨rid', r', hr', rfl⟩, heq⟩
    exact ⟨rid', r', hr', heq⟩

/-- A unique index does not look at the identifier. -/
theorem rejects_iff_clash_of_unique {i : TableIndex D U} {f : RecordFile D} (h : i.Lists f) (hu : i.unique = true)
    (d : D) (rid : RecordId) : i.Rejects d rid ↔ Clash i (Stores f) d := by
  obtain ⟨es, hes, -, hmem⟩ := h
  rw [hes.rejects_iff]
  constructor
  · rintro ⟨e, he, heq⟩
    obtain ⟨rid', r, hr, rfl⟩ := (hmem e).mp he
    rw [TableIndex.cmp, hu, keyCmp_true] at heq
    exact ⟨hu, r.data, ⟨rid', r, hr, rfl⟩, heq⟩
  · rintro ⟨-, _, ⟨rid', r, hr, rfl⟩, heq⟩
    refine ⟨i.entry r.data rid', (hmem _).mpr ⟨rid', r, hr, rfl⟩, ?_⟩
    rw [TableIndex.cmp, hu, keyCmp_true]
    exact heq

/-- What the file stores behind an insertion of rows. -/
theorem stores_added {f f' : RecordFile D} {rows : List (RecordId × Row D)} (h : Added f f' rows) (d : D) :
    Stores f' d ↔ (∃ r ∈ rows.map Prod.snd, r.data = d) ∨ Stores f d := by
  constructor
  · rintro ⟨rid, r, hr, rfl⟩
    by_cases hmem : rid ∈ rows.map Prod.fst
    · obtain ⟨o, ho, rfl⟩ := List.mem_map.mp hmem
      obtain rfl := Option.some.inj ((h.stored o ho).symm.trans hr)
      exact Or.inl ⟨o.2, List.mem_map_of_mem ho, rfl⟩
    · exact Or.inr ⟨rid, r, (h.other rid hmem).symm.trans hr, rfl⟩
  · rintro (⟨r, hr, rfl⟩ | ⟨rid, r, hr, rfl⟩)
    · obtain ⟨o, ho, rfl⟩ := List.mem_map.mp hr
      exact ⟨o.1, o.2, h.stored o ho, rfl⟩
    · refine ⟨rid, r, (h.other rid fun hmem => ?_).trans hr, rfl⟩
      obtain ⟨o, ho, rfl⟩ := List.mem_map.mp hmem
      cases (h.free o ho).symm.trans hr

/-- Rows that are put back. -/
theorem stores_replaced {f f' : RecordFile D} {old : List (RecordId × Row D)} (h : Replaced f f' old id) :
    Stores f' = Stores f := by
  obtain ⟨mid, new, hold, hnew, hperm⟩ := h
  funext d
  rw [stores_added hold, stores_added hnew]
  refine propext (or_congr_left (exists_congr fun r => and_congr_left fun _ => ?_))
  exact hperm.mem_iff

/-- With room, and no index that refuses, the row is inserted. -/
theorem insertRecord_of_not_rejects (h : t.Indexed) {rid : RecordId} {r : Row D}
    (hrid : p.place n t.file = .ok rid) (hnot : ∀ i ∈ t.indexes, ¬ i.Rejects r.data rid) :
    ∃ t₁, t.insertRecord (p.place n) r = .ok (.success, some rid, t₁) := by
  obtain ⟨rc, rid', t', hrun, hdup⟩ := h.insertRecord_rc hrid (p.free n _ _ hrid)
  rw [h.storesKey_iff (p.free n _ _ hrid)] at hdup
  have hrc : rc ≠ .recordDuplicateKey := fun heq => by
    obtain ⟨i, hi, hrej⟩ := hdup.mp heq
    exact hnot i hi hrej
  cases h.sound.insertRecord (p.place n) r with
  | refused hp _ => cases hrid.symm.trans hp
  | stored hp _ hrun' =>
    cases hrid.symm.trans hp
    exact ⟨_, hrun'⟩
  | rejectedLater _ _ _ _ hrun' =>
    cases hrun.symm.trans hrun'
    exact absurd rfl hrc
  | rejectedFirst _ _ _ _ _ hrun' =>
    cases hrun.symm.trans hrun'
    exact absurd rfl hrc

/-- And only then. -/
theorem insertRecord_success (h : t.Indexed) {rid : RecordId} {rid' : Option RecordId} {r : Row D}
    (hrid : p.place n t.file = .ok rid) (hrun : t.insertRecord (p.place n) r = .ok (.success, rid', t₁)) :
    (∀ i ∈ t.indexes, ¬ i.Rejects r.data rid) ∧ t₁.file = t.file.bind rid r ∧ t₁.Indexed := by
  cases h.sound.insertRecord (p.place n) r with
  | refused hp _ => cases hrid.symm.trans hp
  | stored hp hall hrun' =>
    cases hrid.symm.trans hp
    cases hrun.symm.trans hrun'
    refine ⟨not_rejects_of_inserted hall, rfl, ?_⟩
    exact Table.forall_of_forall₂ hall (fun _ _ hi hR => hi.inserted hR (p.free n _ _ hp)) h
  | rejectedLater _ _ _ _ hrun' => cases hrun.symm.trans hrun'
  | rejectedFirst _ _ _ _ _ hrun' => cases hrun.symm.trans hrun'

/-- **Keys.**  In a file with room, it is the keys that decide whether the first index refuses a row. -/
theorem rowsAdmitted_iff (hp : HoldsRows p capacity) {rows : List (Row D)} : ∀ {t : Table D U} {n : Nat},
    t.Indexed → t.file.rids.length + rows.length ≤ capacity →
    (RowsAdmitted p n t rows ↔ FirstIndexSpared t.indexes (Stores t.file) (rows.map Row.data)) := by
  -- the induction is on the rows that are left, from any table that has room for them
  induction rows with
  | nil => exact fun _ _ => Iff.rfl
  | cons r rows ih =>
    intro t n h hroom
    rw [List.length_cons] at hroom
    obtain ⟨rid, hrid⟩ : ∃ rid, p.place n t.file = .ok rid := by
      cases hplace : p.place n t.file with
      | ok rid => exact ⟨rid, rfl⟩
      | error rc =>
        have hfull := hp n t.file rc hplace
        omega
    -- the entry clashes with one of a stored row, and the place of the new row does not matter
    have hfree := p.free n _ _ hrid
    have hclash : ∀ i ∈ t.indexes, (i.Rejects r.data rid ↔ Clash i (Stores t.file) r.data) :=
      fun i hi => rejects_iff_clash (h i hi) hfree
    rw [RowsAdmitted, List.map_cons, FirstIndexSpared]
    refine and_congr ?_ ?_
    · constructor
      · intro hadm i rest hi hcl
        exact hadm rid i rest hrid hi ((hclash i (by rw [hi]; simp)).mpr hcl)
      · intro hnot rid' i rest hrid' hi hrej
        obtain rfl := Except.ok.inj (hrid.symm.trans hrid')
        exact hnot i rest hi ((hclash i (by rw [hi]; simp)).mp hrej)
    · -- the next rows are only inserted if this one is stored
      have hnext : ∀ {rid' : Option RecordId} {t₁ : Table D U},
          t.insertRecord (p.place n) r = .ok (.success, rid', t₁) → (RowsAdmitted p (n + 1) t₁ rows ↔
            FirstIndexSpared t.indexes (fun d => d = r.data ∨ Stores t.file d) (rows.map Row.data)) := by
        intro rid' t₁ hins
        obtain ⟨-, hfile, h₁⟩ := insertRecord_success h hrid hins
        have hlen : t₁.file.rids.length = t.file.rids.length + 1 := by
          rw [Table.length_rids, Table.length_rids, Table.contents_bind hfree hfile, Multiset.card_cons]
        rw [ih h₁ (by omega), hfile, stores_bind hfree]
        exact firstIndexSpared_iff ((h.sound.insertRecord_keeps hins).imp fun _ _ hk => hk.1)
      constructor
      · intro hall hnot
        obtain ⟨t₁, hins⟩ := insertRecord_of_not_rejects h hrid
          fun i hi hrej => hnot i hi ((hclash i hi).mp hrej)
        exact (hnext hins).mp (hall _ _ hins)
      · intro hall rid' t₁ hins
        obtain ⟨hnot, -, -⟩ := insertRecord_success h hrid hins
        exact (hnext hins).mpr (hall fun i hi hcl => hnot i hi ((hclash i hi).mpr hcl))

end Admitted

/-! ## The operator -/

section Operator

variable {t t' : Table D U} {p : Placement D} {capacity : Nat} {T : Int} {stmt : UpdateStmt D}

/-- The table has the same indexes as before, and they list its rows. -/
def IndexesKept (t t' : Table D U) : Prop := List.Forall₂ SameDef t.indexes t'.indexes ∧ t'.Indexed

/-- On an error, the table has its old rows again, and otherwise the rows that the statement selects are
    changed; the indexes list them. -/
def AllOrNothing (t : Table D U) (T : Int) (stmt : UpdateStmt D) (p : Placement D) : Prop :=
  ∃ rc t', openUpdate t T stmt p = .ok (rc, t') ∧ IndexesKept t t' ∧
    if rc = .success then Replaced t.file t'.file (stmt.selected T t) stmt.set
    else ∃ old, Replaced t.file t'.file old id

/-- The data of the rows that the statement does not select. -/
def UpdateStmt.unselected (stmt : UpdateStmt D) (T : Int) (t : Table D U) (data : D) : Prop :=
  ∃ rid r, t.file.row rid = some r ∧ (rid, r) ∉ stmt.selected T t ∧ r.data = data

/-- A scan never ends with SUCCESS. -/
theorem scanRecords_ne_success {f : RecordFile D} {select : D → Bool} :
    ∀ rids : List RecordId, (scanRecords T f select rids).1 ≠ .success
  | [] => by simp [scanRecords]
  | rid :: rids => by
    have ih := @scanRecords_ne_success f select rids
    rw [scanRecords]
    split
    · exact ih
    · split
      · exact ih
      · dsimp only
        split
        · exact ih
        · exact ih
      · rename_i hrc
        exact hrc

theorem keeps_insertRecord (p : Placement D) {is : List (TableIndex D U)} (t : Table D U) (n : Nat) (r : Row D)
    (rc : RC) (rid : Option RecordId) (t' : Table D U) (h : List.Forall₂ Keeps is t.indexes)
    (hrun : t.insertRecord (p.place n) r = .ok (rc, rid, t')) : List.Forall₂ Keeps is t'.indexes :=
  keeps_trans h (Table.Sound.insertRecord_keeps (keeps_sound h) hrun)

theorem keeps_deleteRecord {is : List (TableIndex D U)} (t : Table D U) (data : D) (rid : RecordId)
    (rc : RC) (t' : Table D U) (h : List.Forall₂ Keeps is t.indexes)
    (hrun : t.deleteRecord data rid = .ok (rc, t')) : List.Forall₂ Keeps is t'.indexes :=
  keeps_trans h (Table.Sound.deleteRecord_keeps (keeps_sound h) hrun)

/-- What the first loop leaves. -/
theorem deleteOldRows_spec (h : t.Indexed) : ∃ t₁, deleteOldRows p 0 t [] (stmt.selected T t)
      = .ok (.success, 0, t₁) ∧ t₁.Indexed ∧ Added t₁.file t.file (stmt.selected T t) ∧
    Table.Backed t t₁ ∧ List.Forall₂ SameDef t.indexes t₁.indexes := by
  have hstored := selected_stored t T stmt
  obtain ⟨t₁, hdel, h₁⟩ := @deleteOldRows_indexed D U t p 0 _ [] h hstored
  obtain ⟨-, hadded, hback⟩ := @deleteOldRows_undone D U t _ p 0 _ _ _ _ _ hstored hdel
  have hkeeps := deleteOldRows_preserves (keeps_insertRecord p) keeps_deleteRecord
    (keeps_refl h.sound) hdel
  exact ⟨t₁, hdel, h₁, hadded, hback h.backed, hkeeps.imp fun _ _ hk => hk.1⟩

/-- The rows that are left are those that the statement does not select. -/
theorem stores_base {f : RecordFile D} (h : Added f t.file (stmt.selected T t)) :
    Stores f = stmt.unselected T t := by
  funext data
  refine propext ⟨?_, ?_⟩
  · rintro ⟨rid, r, hr, rfl⟩
    have hnot : rid ∉ (stmt.selected T t).map Prod.fst := by
      intro hmem
      obtain ⟨o, ho, rfl⟩ := List.mem_map.mp hmem
      cases (h.free o ho).symm.trans hr
    refine ⟨rid, r, (h.other rid hnot).trans hr, ?_, rfl⟩
    exact fun hmem => hnot (List.mem_map_of_mem hmem)
  · rintro ⟨rid, r, hr, hnot, rfl⟩
    refine ⟨rid, r, ?_, rfl⟩
    rw [← h.other rid, hr]
    intro hmem
    obtain ⟨o, ho, rfl⟩ := List.mem_map.mp hmem
    obtain rfl := Option.some.inj ((h.stored o ho).symm.trans hr)
    exact hnot ho

/-- The new rows, in the order in which they are inserted. -/
def UpdateStmt.newRows (stmt : UpdateStmt D) (T : Int) (t : Table D U) : List (Row D) :=
  (stmt.selected T t).map fun old => { old.2 with data := stmt.set old.2.data }

/-- There is room for the new rows, as the old ones are gone. -/
theorem rowsAdmitted_newRows (hp : HoldsRows p capacity) (hfits : t.file.rids.length ≤ capacity)
    {t₁ : Table D U} (h₁ : t₁.Indexed) (hadded : Added t₁.file t.file (stmt.selected T t))
    (hdef : List.Forall₂ SameDef t.indexes t₁.indexes) :
    RowsAdmitted p 0 t₁ (stmt.newRows T t) ↔ FirstIndexSpared t.indexes (stmt.unselected T t)
      ((stmt.selected T t).map fun old => stmt.set old.2.data) := by
  have hlen : t₁.file.rids.length + (stmt.newRows T t).length ≤ capacity := by
    have hcard := congrArg Multiset.card (hadded.collect fun _ r => some r.data)
    rw [Multiset.card_add] at hcard
    rw [Table.length_rids] at hfits ⊢
    unfold Table.contents at hfits ⊢
    rw [UpdateStmt.newRows, List.length_map]
    simp only [List.filterMap_eq_map', Multiset.coe_card, List.length_map] at hcard
    omega
  rw [rowsAdmitted_iff hp h₁ hlen, stores_base hadded, firstIndexSpared_iff hdef, UpdateStmt.newRows,
    List.map_map]
  rfl

/-- An old row cannot be refused when it is put back, so only the new rows count. -/
theorem updateAdmitted (h : t.Indexed) {t₁ : Table D U}
    (hdel : deleteOldRows p 0 t [] (stmt.selected T t) = .ok (.success, 0, t₁))
    (hadded : Added t₁.file t.file (stmt.selected T t)) (hback : Table.Backed t t₁)
    (hadm : RowsAdmitted p 0 t₁ (stmt.newRows T t)) : UpdateAdmitted t T stmt p := by
  intro n t₁' hdel'
  cases hdel.symm.trans hdel'
  refine ⟨hadm, fun rc n₂ done t₂ t₃ hins hdel₃ => ?_⟩
  obtain ⟨hadded₂, hback₂, -⟩ :=
    @insertNewRows_added D U t _ p _ _ _ _ _ _ [] _ (Added.refl t₁.file) hins
  obtain ⟨-, hadded₃, hback₃⟩ := @deleteRows_undone D U t _ _ _ _ (areStored_of_added hadded₂) hdel₃
  have hfile : t₃.file = t₁.file := hadded₃.base_unique hadded₂
  refine rowsAdmitted_back h (hback₃ (hback₂ hback)) ?_
  unfold Table.contents
  rw [hfile, hadded.collect, List.map_map, ← List.filterMap_eq_map]
  rfl

/-- A scan that gets to the end gives the rows that are selected. -/
theorem selected_eof (hrc : (scanRecords T t.file stmt.select (stmt.access.rids t.file)).1 = .recordEof) :
    stmt.selected T t = (scanRecords T t.file stmt.select (stmt.access.rids t.file)).2 := by
  unfold UpdateStmt.selected
  cases hscan : scanRecords T t.file stmt.select (stmt.access.rids t.file) with
  | mk rc₀ rows =>
    rw [hscan] at hrc
    obtain rfl : rc₀ = .recordEof := hrc
    rfl

/-- The scan meets a conflict. -/
theorem openUpdate_conflict
    (hrc : (scanRecords T t.file stmt.select (stmt.access.rids t.file)).1 ≠ .recordEof) :
    stmt.selected T t = [] ∧ openUpdate t T stmt p =
      .ok ((scanRecords T t.file stmt.select (stmt.access.rids t.file)).1, t) := by
  unfold UpdateStmt.selected openUpdate
  cases hscan : scanRecords T t.file stmt.select (stmt.access.rids t.file) with
  | mk rc₀ rows =>
    rw [hscan] at hrc
    dsimp only at hrc ⊢
    rw [if_pos hrc]
    refine ⟨?_, rfl⟩
    split
    · rename_i heq
      exact absurd (Prod.mk.inj heq).1 hrc
    · rfl

/-- **The undo** of a statement to which an entry of the first index is lost. -/
theorem openUpdate_lost {t₁ t₂ : Table D U} {rc rc₂ : RC} {n₂ : Nat} {done : List (RecordId × Row D)}
    {i : TableIndex D U} {rid : RecordId} {r : Row D} (h : t.Indexed)
    (heof : (scanRecords T t.file stmt.select (stmt.access.rids t.file)).1 = .recordEof)
    (hdel : deleteOldRows p 0 t [] (stmt.selected T t) = .ok (.success, 0, t₁))
    (hadded : Added t₁.file t.file (stmt.selected T t))
    (hins : insertNewRows p 0 t₁ [] (stmt.newRows T t) = .ok (rc₂, n₂, done, t₂)) (hrc₂ : rc₂ ≠ .success)
    (hdef : ∃ i₁ ∈ t.indexes, SameDef i₁ i) (hu : i.unique = true) (hmissing : Missing i rid r t₂)
    (hrun : openUpdate t T stmt p = .ok (rc, t')) : ¬ t'.Indexed := by
  unfold openUpdate at hrun
  cases hscan : scanRecords T t.file stmt.select (stmt.access.rids t.file) with
  | mk rc₀ oldRecords =>
  rw [hscan] at hrun heof
  obtain rfl : rc₀ = .recordEof := heof
  obtain rfl : stmt.selected T t = oldRecords := by
    unfold UpdateStmt.selected
    rw [hscan]
  dsimp only at hrun
  rw [if_neg (by simp), bind_ok _ hdel] at hrun
  dsimp only at hrun
  rw [if_neg (by simp)] at hrun
  unfold UpdateStmt.newRows at hins
  rw [bind_ok _ hins] at hrun
  dsimp only at hrun
  rw [if_neg hrc₂] at hrun
  obtain ⟨⟨rc₃, t₃⟩, hdel₃, hrun₃⟩ := ok_of_bind hrun
  obtain ⟨hadded₂, -, -⟩ :=
    @insertNewRows_added D U t _ p _ _ _ _ _ _ [] _ (Added.refl t₁.file) hins
  have hstored₂ := areStored_of_added hadded₂
  have hmissing₃ := deleteRows_missing hmissing hstored₂ hdel₃
  obtain ⟨rfl, hadded₃, -⟩ := @deleteRows_undone D U t _ _ _ _ hstored₂ hdel₃
  dsimp only at hrun₃
  rw [if_neg (by simp)] at hrun₃
  obtain ⟨⟨rc₄, n₄, t₄⟩, hput, hrun₄⟩ := ok_of_bind hrun₃
  -- the row whose entry is missing has been in the table, beside the old rows
  have hrow₁ : t₁.file.row rid = some r := by
    rw [← hadded₃.base_unique hadded₂]
    exact hmissing₃.row
  have hnot : rid ∉ (stmt.selected T t).map Prod.fst := by
    intro hmem
    obtain ⟨o, ho, rfl⟩ := List.mem_map.mp hmem
    cases (hadded.free o ho).symm.trans hrow₁
  have hrow : t.file.row rid = some r := (hadded.other rid hnot).trans hrow₁
  have hne : ∀ r' ∈ (stmt.selected T t).map Prod.snd,
      i.attrCmp (i.keyOf r'.data) (i.keyOf r.data) ≠ .eq := by
    intro r' hr'
    obtain ⟨o, ho, rfl⟩ := List.mem_map.mp hr'
    obtain ⟨i₁, hi₁, hdef⟩ := hdef
    rw [SameDef] at hdef
    rw [hdef] at hu ⊢
    refine (h i₁ hi₁).attrCmp_ne hu (hadded.stored o ho) hrow ?_
    exact fun heq => hnot (heq ▸ List.mem_map_of_mem ho)
  have hmissing₄ := insertRows_missing hmissing₃ hu hne hput
  dsimp only at hrun₄
  split at hrun₄
  · cases hrun₄
    exact hmissing₄.not_indexed
  · cases hrun₄
    exact hmissing₄.not_indexed

/-- **UPDATE** does all or nothing exactly if the first index refuses no new row. -/
theorem openUpdate_allOrNothing_iff (h : t.Indexed) (hp : HoldsRows p capacity)
    (hfits : t.file.rids.length ≤ capacity) :
    AllOrNothing t T stmt p ↔ FirstIndexSpared t.indexes (stmt.unselected T t)
      ((stmt.selected T t).map fun old => stmt.set old.2.data) := by
  by_cases heof : (scanRecords T t.file stmt.select (stmt.access.rids t.file)).1 = .recordEof
  swap
  · obtain ⟨hnone, hrun⟩ := @openUpdate_conflict D U t p T stmt heof
    rw [hnone]
    refine iff_of_true ⟨_, t, hrun, ⟨?_, h⟩, ?_⟩ trivial
    · exact List.forall₂_same.mpr fun i _ => .refl i
    · rw [if_neg (scanRecords_ne_success _)]
      exact ⟨[], replaced_refl _⟩
  obtain ⟨t₁, hdel, h₁, hadded, hback, hdef⟩ := @deleteOldRows_spec D U t p T stmt h
  rw [← rowsAdmitted_newRows hp hfits h₁ hadded hdef]
  constructor
  · rintro ⟨rc, t', hrun, ⟨-, hindexed⟩, -⟩
    by_contra hnot
    obtain ⟨rc₂, n₂, done, t₂, i, rid, r, hins, hrc₂, ⟨i₁, rest, hi₁, hdef₁⟩, hu, hmissing⟩ :=
      @insertNewRows_missing D U p (stmt.newRows T t) t₁ 0 [] h₁ hnot
    rw [hi₁] at hdef
    have hfirst : ∃ i₀ ∈ t.indexes, SameDef i₀ i := by
      generalize t.indexes = is at hdef
      cases hdef with
      | cons hdef₀ _ => exact ⟨_, by simp, hdef₀.trans hdef₁⟩
    exact openUpdate_lost h heof hdel hadded hins hrc₂ hfirst hu hmissing hrun hindexed
  · intro hadm
    obtain ⟨rc, t', hrun, hindexed⟩ := openUpdate_indexed h (updateAdmitted h hdel hadded hback hadm)
    obtain ⟨hdone, hundone⟩ := openUpdate_allOrNothing hrun
    have hkeeps := openUpdate_preserves (keeps_insertRecord p) keeps_deleteRecord (keeps_refl h.sound) hrun
    refine ⟨rc, t', hrun, ⟨hkeeps.imp fun _ _ hk => hk.1, hindexed⟩, ?_⟩
    split
    · rename_i hrc
      exact hdone hrc heof
    · rename_i hrc
      exact hundone ⟨capacity, hp, hfits⟩ h hrc

end Operator

end Miniob.Trx
