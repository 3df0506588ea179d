/-
  When an INSERT outside multi-statement mode is all or nothing for later transactions.

  The rows that went in before the failure are not read any more, if the loop of `open` gets to take them back; but
  their entries stay in the indexes.  A later transaction that inserts such a row again is refused by a unique index.
  The refusal itself takes entries out (`SecondPass`), and it can be that it takes out just the one that is too many.
-/
import Miniob.Sql.InsertDelete

namespace Miniob.Sql

open Miniob.Common Miniob.Db Miniob.Index Miniob.Storage Miniob.Trx TableIndex

variable {D U : Type}

/-! ## The condition -/

namespace InsertStmt

/-- The table takes the rows `ds`, is `t₁` then, and refuses `d`. -/
structure RefusesAt (T : Int) (stmt : InsertStmt D) (t t₁ : Table D U) (ds : List D) (d : D) : Prop where
  rows : ∃ rest, stmt.rows = ds.map .ok ++ .ok d :: rest
  stores : stmt.Stores T 0 t ds t₁
  refused : ∃ rc rid t₂, rc ≠ .success ∧
    t₁.insertRecord ((stmt.placement ds.length).place 0) ⟨-T, maxTrxId, d⟩ = .ok (rc, rid, t₂)

/-- The second pass after the refusal gets to the index at `n`, and takes an entry out of it. -/
def TakenFrom (stmt : InsertStmt D) (t₁ : Table D U) (ds : List D) (d : D) (n : Nat) : Prop :=
  ∃ rid, (stmt.placement ds.length).place 0 t₁.file = .ok rid ∧ RefusedUpTo d rid t₁.indexes n

/-- A unique index has no entry more than before, and none less: `d` is the first row, and the second pass does not get
    to the index; or it is the second one, and the second pass takes out the entry of the first one. -/
def Spares (stmt : InsertStmt D) (t₁ : Table D U) (ds : List D) (d : D) : Prop :=
  ∀ n i, t₁.indexes[n]? = some i → i.unique = true → (ds = [] ∧ ¬ stmt.TakenFrom t₁ ds d n) ∨
    ∃ d₁, ds = [d₁] ∧ stmt.TakenFrom t₁ ds d n ∧ i.attrCmp (i.keyOf d₁) (i.keyOf d) = .eq

/-- The condition of an INSERT: the table refuses no row after it has taken one, unless this leaves no trace. -/
structure HoldsWhen (T : Int) (stmt : InsertStmt D) (t : Table D U) : Prop where
  /-- No row that cannot be made comes after rows that the table takes. -/
  made : ∀ ds rc rest t₁, stmt.rows = ds.map .ok ++ .error rc :: rest → stmt.Stores T 0 t ds t₁ → ds = []
  /-- If the table refuses a row, that leaves no trace in a unique index. -/
  spared : ∀ ds d t₁, stmt.RefusesAt T t t₁ ds d → stmt.Spares t₁ ds d

end InsertStmt

/-- Two splittings of one list: at the same place, or one goes on where the other ends. -/
theorem madeRows_cases {A E : Type} {ds ds' : List A} {row : Except E A} {d' : A} {rest rest' : List (Except E A)}
    (h : ds.map Except.ok ++ row :: rest = ds'.map Except.ok ++ .ok d' :: rest') :
    (ds = ds' ∧ row = .ok d') ∨ (∃ more, ds = ds' ++ d' :: more) ∨ ∃ d more, row = .ok d ∧ ds' = ds ++ d :: more := by
  induction ds generalizing ds' with
  | nil =>
    cases ds' with
    | nil => exact Or.inl ⟨rfl, (List.cons.inj h).1⟩
    | cons a ds' => exact Or.inr (Or.inr ⟨a, ds', (List.cons.inj h).1, rfl⟩)
  | cons a ds ih =>
    cases ds' with
    | nil =>
      obtain ⟨ha, -⟩ := List.cons.inj h
      obtain rfl := Except.ok.inj ha
      exact Or.inr (Or.inl ⟨ds, rfl⟩)
    | cons a' ds' =>
      obtain ⟨ha, hrest⟩ := List.cons.inj h
      obtain rfl := Except.ok.inj ha
      rcases ih hrest with ⟨rfl, hrow⟩ | ⟨more, rfl⟩ | ⟨d, more, hrow, rfl⟩
      · exact Or.inl ⟨rfl, hrow⟩
      · exact Or.inr (Or.inl ⟨more, rfl⟩)
      · exact Or.inr (Or.inr ⟨d, more, hrow, rfl⟩)

section RefusesAt

variable {T : Int} {stmt : InsertStmt D} {t t₁ t₂ : Table D U} {ds more : List D} {d : D}

theorem InsertStmt.RefusesAt.not_stores (h : stmt.RefusesAt T t t₁ ds d) :
    ¬ stmt.Stores T 0 t (ds ++ d :: more) t₂ := by
  intro hstores
  obtain ⟨t₁', hds, rid, t', hins, -⟩ := hstores.append
  obtain rfl := hds.unique h.stores
  obtain ⟨rc, rid', t₂', hrc, hrefused⟩ := h.refused
  rw [Nat.zero_add, hrefused] at hins
  cases hins
  exact hrc rfl

/-- If the rows before a failure are in, there is no earlier refusal. -/
theorem InsertStmt.RefusesAt.not_made (h : stmt.RefusesAt T t t₁ ds d) {ds' : List D} {rc : RC}
    {rest : List (Except RC D)} (hrows : stmt.rows = ds'.map .ok ++ .error rc :: rest) :
    ¬ stmt.Stores T 0 t ds' t₂ := by
  obtain ⟨rest', hrows'⟩ := h.rows
  rcases madeRows_cases (hrows.symm.trans hrows') with ⟨-, hrow⟩ | ⟨more, rfl⟩ | ⟨d', more, hrow, -⟩
  · cases hrow
  · exact h.not_stores
  · cases hrow

theorem InsertStmt.RefusesAt.not_stored (h : stmt.RefusesAt T t t₁ ds d) (ds' : List D)
    (hrows : stmt.rows = ds'.map .ok) : ¬ stmt.Stores T 0 t ds' t₂ := by
  obtain ⟨rest, hrows'⟩ := h.rows
  obtain ⟨ds₁, ds₂, rfl, hds, hrest⟩ := List.map_eq_append_iff.mp (hrows.symm.trans hrows')
  obtain rfl := List.map_injective_iff.mpr (fun _ _ => Except.ok.inj) hds
  obtain ⟨d', more, rfl, hd, -⟩ := List.map_eq_cons_iff.mp hrest
  obtain rfl := Except.ok.inj hd
  exact h.not_stores

theorem InsertStmt.RefusesAt.unique (h : stmt.RefusesAt T t t₁ ds d) {ds' : List D} {d' : D}
    (h' : stmt.RefusesAt T t t₂ ds' d') : ds' = ds ∧ d' = d ∧ t₂ = t₁ := by
  obtain ⟨rest, hrows⟩ := h.rows
  obtain ⟨rest', hrows'⟩ := h'.rows
  rcases madeRows_cases (hrows.symm.trans hrows') with ⟨rfl, hrow⟩ | ⟨more, rfl⟩ | ⟨d₁, more, hrow, rfl⟩
  · exact ⟨rfl, (Except.ok.inj hrow).symm, h'.stores.unique h.stores⟩
  · exact absurd h.stores h'.not_stores
  · obtain rfl := Except.ok.inj hrow
    exact absurd h'.stores h.not_stores

end RefusesAt

/-! ## The indexes -/

/-- One row: the keys of the list are different. -/
theorem ownRows_single {rows : List (RecordId × Row D)} (hnd : (rows.map Prod.fst).Nodup) {rid : RecordId} {d : D}
    (hown : ownRows rows rid = some d) (honly : ∀ rid', ownRows rows rid' ≠ none → rid' = rid) :
    rows.map (fun o => o.2.data) = [d] := by
  cases rows with
  | nil => cases hown
  | cons o rows =>
    have hkey : ∀ o' ∈ o :: rows, o'.1 = rid := fun o' ho' =>
      honly o'.1 fun hnone => ownRows_eq_none.mp hnone (List.mem_map_of_mem ho')
    cases rows with
    | nil =>
      obtain ⟨o', ho', -, rfl⟩ := ownRows_mem hown
      rw [List.mem_singleton.mp ho']
      rfl
    | cons o₂ rows =>
      have hne := (List.nodup_cons.mp hnd).1
      refine absurd ?_ hne
      rw [hkey o (by simp), ← hkey o₂ (by simp)]
      exact List.mem_map_of_mem List.mem_cons_self

section Found

variable {db db' : Database D U} {T reader : Int} {tid : TableId} {t₀ t t' : Table D U} {ops : List Operation}
  {rows : List (RecordId × Row D)}

/-- The rows that are in have their entries. -/
theorem Inserting.found (h : Inserting T tid t₀ t ops rows) (hclosed : Closed db tid t ops db' t') :
    StillFound reader t₀ t' := by
  rw [StillFound, hclosed.indexes]
  refine h.indexes.imp fun i₀ i hplus rid r' hr' _ hbefore => ?_
  rw [hclosed.row] at hr'
  obtain ⟨r, hr, rfl⟩ := Option.map_eq_some_iff.mp hr'
  show i.Finds r.data rid
  cases hown : ownRows rows rid with
  | some d =>
    obtain ⟨o, ho, rfl, rfl⟩ := ownRows_mem hown
    obtain rfl := Option.some.inj ((h.added.stored o ho).symm.trans hr)
    obtain ⟨es, hes, hmem⟩ := hplus.holds hown
    exact ⟨es, hes, hmem⟩
  | none =>
    rw [h.added.other rid (ownRows_eq_none.mp hown)] at hr
    exact plus_finds hplus (hbefore r hr)

/-- No row has gone in. -/
theorem Inserting.refusesAlike (h : Inserting T tid t₀ t ops []) (hindexes : t'.indexes = t.indexes) :
    RefusesAlike t₀ t' := by
  rw [RefusesAlike, hindexes]
  refine h.indexes.imp fun i₀ i hplus _ => (plus_refuses_iff_same hplus ?_).mpr fun _ => rfl
  obtain ⟨es, hes⟩ := hplus.sound
  exact hes.sameEntries

end Found

section Refused

variable {T : Int} {stmt : InsertStmt D} {t t₁ t₂ : Table D U} {ops : List Operation}
  {rows : List (RecordId × Row D)} {ds : List D} {d : D} {rc : RC} {rid : Option RecordId}

/-- What the refusal does to each index. -/
theorem Inserting.refused_index (h : Inserting T stmt.tid t t₁ ops rows)
    (hrefused : t₁.insertRecord ((stmt.placement ds.length).place 0) ⟨-T, maxTrxId, d⟩ = .ok (rc, rid, t₂))
    (hrc : rc ≠ .success) : t₁.indexes.length = t₂.indexes.length ∧
      ∀ n i₁ i₂, t₁.indexes[n]? = some i₁ → t₂.indexes[n]? = some i₂ →
        (∃ rid', (stmt.placement ds.length).place 0 t₁.file = .ok rid' ∧ RefusedUpTo d rid' t₁.indexes n ∧
          Removed d rid' i₁ i₂) ∨ (¬ stmt.TakenFrom t₁ ds d n ∧ SameEntries i₁ i₂) := by
  rcases h.sound.insertRecord_secondPass hrefused hrc with ⟨rc', hplace, heq⟩ | ⟨rid', hplace, hpass⟩
  · refine ⟨by rw [heq], fun n i₁ i₂ h₁ h₂ => Or.inr ⟨?_, ?_⟩⟩
    · rintro ⟨rid', hplace', -⟩
      cases hplace.symm.trans hplace'
    · rw [heq] at h₂
      obtain rfl := Option.some.inj (h₁.symm.trans h₂)
      obtain ⟨es, hes⟩ := h.sound i₁ (List.mem_of_getElem? h₁)
      exact hes.sameEntries
  · obtain ⟨hlen, hall⟩ := secondPass_getElem? hpass
    refine ⟨hlen, fun n i₁ i₂ h₁ h₂ => ?_⟩
    rcases hall n i₁ i₂ h₁ h₂ with ⟨hupTo, hremoved⟩ | ⟨hnot, hsame⟩
    · exact Or.inl ⟨rid', hplace, hupTo, hremoved⟩
    · refine Or.inr ⟨?_, hsame⟩
      rintro ⟨rid'', hplace', hupTo⟩
      obtain rfl := Except.ok.inj (hplace.symm.trans hplace')
      exact hnot hupTo

/-- Just one row has gone in, and it has the key of the refused one. -/
theorem Inserting.single_iff (h : Inserting T stmt.tid t t₁ ops rows)
    (hdata : rows.map (fun o => o.2.data) = ds.reverse) {i₀ i₁ : TableIndex D U} {rid' : RecordId}
    (hdef : SameDef i₀ i₁) (hu : i₀.unique = true) :
    (∃ rid₁ d₁, ownRows rows rid₁ = some d₁ ∧ (∀ rid', ownRows rows rid' ≠ none → rid' = rid₁) ∧
      i₀.cmp (i₀.entry d₁ rid₁).1 (i₀.entry d rid').1 = .eq) ↔
    ∃ d₁, ds = [d₁] ∧ i₁.attrCmp (i₁.keyOf d₁) (i₁.keyOf d) = .eq := by
  have hcmp : ∀ rid₁ d₁, i₀.cmp (i₀.entry d₁ rid₁).1 (i₀.entry d rid').1 =
      i₁.attrCmp (i₁.keyOf d₁) (i₁.keyOf d) := by
    intro rid₁ d₁
    rw [TableIndex.cmp, hu, keyCmp_true, hdef]
    rfl
  constructor
  · rintro ⟨rid₁, d₁, hown, honly, heq⟩
    have hds := ownRows_single h.added.nodup hown honly
    rw [hdata, List.reverse_eq_iff] at hds
    exact ⟨d₁, hds, (hcmp rid₁ d₁).symm.trans heq⟩
  · rintro ⟨d₁, rfl, heq⟩
    obtain ⟨o, rows', rfl, rfl, hnone⟩ := List.map_eq_cons_iff.mp hdata
    obtain rfl := List.map_eq_nil_iff.mp hnone
    refine ⟨o.1, o.2.data, if_pos rfl, fun rid'' hown => ?_, (hcmp _ _).trans heq⟩
    by_contra hne
    exact hown (if_neg hne)

/-- A unique index refuses the same rows as before: either nothing has gone in, or the one row that has gone in has
    lost its entry again. -/
theorem Inserting.refused_alike_iff (h : Inserting T stmt.tid t t₁ ops rows)
    (hdata : rows.map (fun o => o.2.data) = ds.reverse)
    (hrefused : t₁.insertRecord ((stmt.placement ds.length).place 0) ⟨-T, maxTrxId, d⟩ = .ok (rc, rid, t₂))
    (hrc : rc ≠ .success) : RefusesAlike t t₂ ↔ stmt.Spares t₁ ds d := by
  obtain ⟨hlen₁, hplus⟩ := forall₂_iff_getElem?.mp h.indexes
  obtain ⟨hlen₂, hcases⟩ := h.refused_index hrefused hrc
  -- no row of the statement is under the transaction's own changes when none was inserted
  have hnil : (∀ rid', ownRows rows rid' = none) ↔ ds = [] := by
    rw [← List.reverse_eq_nil_iff, ← hdata, List.map_eq_nil_iff]
    constructor
    · intro hnone
      cases rows with
      | nil => rfl
      | cons o rows =>
        have hsome : ownRows (o :: rows) o.1 = some o.2.data := if_pos rfl
        exact absurd (hsome.symm.trans (hnone o.1)) (Option.some_ne_none _)
    · rintro rfl rid'
      rfl
  rw [RefusesAlike, forall₂_iff_getElem?]
  constructor
  -- a unique index refuses the same keys before and after: the new entry is gone or never came
  · rintro ⟨-, halike⟩ n i₁ h₁ hu
    obtain ⟨hn, -⟩ := List.getElem?_eq_some_iff.mp h₁
    obtain ⟨i₀, h₀⟩ : ∃ i₀, t.indexes[n]? = some i₀ := ⟨_, List.getElem?_eq_getElem (hlen₁.symm ▸ hn)⟩
    obtain ⟨i₂, h₂⟩ : ∃ i₂, t₂.indexes[n]? = some i₂ := ⟨_, List.getElem?_eq_getElem (hlen₂ ▸ hn)⟩
    have hadded := hplus n _ _ h₀ h₁
    have hu₀ : i₀.unique = true := by
      rw [hadded.1] at hu
      exact hu
    -- either the index took the key of the refused row and lost it again, or it took nothing
    rcases hcases n _ _ h₁ h₂ with ⟨rid', hplace, hupTo, hremoved⟩ | ⟨hnot, hsame⟩
    · obtain ⟨d₁, hds, heq⟩ := (h.single_iff hdata hadded.1 hu₀).mp
        ((plus_refuses_iff_removed hadded hremoved).mp (halike n _ _ h₀ h₂ hu₀))
      exact Or.inr ⟨d₁, hds, ⟨rid', hplace, hupTo⟩, heq⟩
    · exact Or.inl ⟨hnil.mp ((plus_refuses_iff_same hadded hsame).mp (halike n _ _ h₀ h₂ hu₀)), hnot⟩
  -- the other direction, index by index
  · intro hspared
    refine ⟨hlen₁.trans hlen₂, fun n i₀ i₂ h₀ h₂ hu₀ => ?_⟩
    obtain ⟨hn, -⟩ := List.getElem?_eq_some_iff.mp h₀
    obtain ⟨i₁, h₁⟩ : ∃ i₁, t₁.indexes[n]? = some i₁ := ⟨_, List.getElem?_eq_getElem (hlen₁ ▸ hn)⟩
    have hadded := hplus n _ _ h₀ h₁
    have hu : i₁.unique = true := by
      rw [hadded.1]
      exact hu₀
    rcases hcases n _ _ h₁ h₂ with ⟨rid', hplace, hupTo, hremoved⟩ | ⟨hnot, hsame⟩
    · rcases hspared n _ h₁ hu with ⟨-, hnot⟩ | ⟨d₁, hds, -, heq⟩
      · exact absurd ⟨rid', hplace, hupTo⟩ hnot
      · exact (plus_refuses_iff_removed hadded hremoved).mpr ((h.single_iff hdata hadded.1 hu₀).mpr ⟨d₁, hds, heq⟩)
    · rcases hspared n _ h₁ hu with ⟨hds, -⟩ | ⟨d₁, -, htaken, -⟩
      · exact (plus_refuses_iff_same hadded hsame).mpr (hnil.mpr hds)
      · exact absurd htaken hnot

/-- Then the rows that were there before are found. -/
theorem Inserting.refused_found {t' : Table D U} {reader : Int} (h : Inserting T stmt.tid t t₁ ops rows)
    (hdata : rows.map (fun o => o.2.data) = ds.reverse)
    (hrefused : t₁.insertRecord ((stmt.placement ds.length).place 0) ⟨-T, maxTrxId, d⟩ = .ok (rc, rid, t₂))
    (hrc : rc ≠ .success) (hindexes : t'.indexes = t₂.indexes)
    (hrows : ∀ rid r', t'.file.row rid = some r' → Visible reader r' → t.file.row rid = some r')
    (hspared : stmt.Spares t₁ ds d) :
    StillFound reader t t' := by
  obtain ⟨hlen₁, hplus⟩ := forall₂_iff_getElem?.mp h.indexes
  obtain ⟨hlen₂, hcases⟩ := h.refused_index hrefused hrc
  rw [StillFound, hindexes, forall₂_iff_getElem?]
  refine ⟨hlen₁.trans hlen₂, fun n i₀ i₂ h₀ h₂ rid r' hr' hv hbefore => ?_⟩
  obtain ⟨hn, -⟩ := List.getElem?_eq_some_iff.mp h₀
  obtain ⟨i₁, h₁⟩ : ∃ i₁, t₁.indexes[n]? = some i₁ := ⟨_, List.getElem?_eq_getElem (hlen₁ ▸ hn)⟩
  have hadded := hplus n _ _ h₀ h₁
  have hr := hrows rid r' hr' hv
  have hfinds := hbefore r' hr
  rcases hcases n _ _ h₁ h₂ with ⟨rid', hplace, hupTo, hremoved⟩ | ⟨-, hsame⟩
  · cases hu : i₀.unique with
    | true =>
      -- the entry that has been taken out is the one that was too many
      have hu₁ : i₁.unique = true := by
        rw [hadded.1]
        exact hu
      rcases hspared n _ h₁ hu₁ with ⟨-, hnot⟩ | ⟨d₁, hds, -, heq⟩
      · exact absurd ⟨rid', hplace, hupTo⟩ hnot
      · obtain ⟨rid₁, d₂, hown, honly, heq₂⟩ := (h.single_iff hdata hadded.1 hu).mpr ⟨d₁, hds, heq⟩
        exact same_finds (plus_removed_same hadded hremoved hown honly heq₂) hfinds
    | false =>
      -- only an entry of the place itself could be taken out, and no row is stored there
      refine removed_finds hremoved ?_ ?_ (plus_finds hadded hfinds)
      · rw [hadded.1]
        exact hu
      · rintro rfl
        have hfree := (stmt.placement ds.length).free 0 _ _ hplace
        have hnot : rid ∉ rows.map Prod.fst := by
          intro hmem
          obtain ⟨o, ho, rfl⟩ := List.mem_map.mp hmem
          cases (h.added.free o ho).symm.trans hr
        rw [h.added.other rid hnot, hr] at hfree
        cases hfree
  · exact same_finds hsame (plus_finds hadded hfinds)

end Refused

/-! ## The statement -/

/-- **INSERT.** -/
theorem insert_atomic_iff {scanned db db' : Database D U} {T : Int} {t : Table D U} {rc : RC} {stmt : InsertStmt D}
    (hstarted : Started db T) (ht : db.tables stmt.tid = some t) (hsound : t.Sound)
    (hrun : writeResult scanned db T (.insert stmt) = .ok (rc, db')) :
    Atomic scanned db T (.insert stmt) rc db' ↔ stmt.HoldsWhen T t := by
  obtain ⟨rc₁, db₁, rcClose, hopenRun, hclose, hrc⟩ := writeResult_ok hrun
  have hends := openInsert_ends hstarted.pos (hstarted.opened ht) (Inserting.start stmt.tid hsound) hopenRun
  have hbefore : ∀ reader, seen db reader stmt.tid = t.file.collect fun _ => read reader := fun reader => by
    rw [seen, recordFile_of_table ht]
  cases hends with
  | @stored ds t₁ ops rows hrows hstores hopen hins hdata =>
    obtain ⟨rfl, t', hclosed⟩ := hopen.closeResult hstarted hclose
    obtain rfl := hrc rfl
    rw [List.map_nil, List.append_nil] at hdata
    refine iff_of_true ?_ ⟨?_, ?_⟩
    · refine (hclosed.atomic_iff (.insert stmt) ht).mpr ⟨fun reader hlt hmax => ?_,
        fun reader _ _ => hins.found hclosed, fun hne => absurd rfl hne⟩
      have houtcome : (stmt.rows.filterMap Except.toOption : List D) = ds := by
        rw [hrows, List.filterMap_map]
        exact List.filterMap_some
      rw [if_pos rfl]
      refine (hins.seen hclosed hstarted hlt hmax).trans ?_
      show _ = (stmt.rows.filterMap Except.toOption : List D) + seen db reader stmt.tid
      rw [hdata, houtcome, hbefore]
      exact congrArg (· + _) (Multiset.coe_eq_coe.mpr (List.reverse_perm ds))
    · intro ds' rc' rest _ hrows' _
      -- every row has been made
      have hmem : Except.error rc' ∈ stmt.rows := by rw [hrows']; simp
      rw [hrows] at hmem
      obtain ⟨d, -, hd⟩ := List.mem_map.mp hmem
      cases hd
    · exact fun _ _ _ href => absurd hstores (href.not_stored ds hrows)
  | @notMade ds t₁ ops rows _ rest hrows hstores hopen hins hdata =>
    obtain ⟨rfl, t', hclosed⟩ := hopen.closeResult hstarted hclose
    obtain rfl := hrc rfl
    rw [List.map_nil, List.append_nil] at hdata
    have hfail : rc ≠ .success := stmt.failed rc (by rw [hrows]; simp)
    rw [hclosed.atomic_iff (.insert stmt) ht]
    have hseen : ∀ reader, db'.currentTrxId < reader → reader < maxTrxId →
        seen db' reader stmt.tid = (ds.reverse : List D) + seen db reader stmt.tid := by
      intro reader hlt hmax
      rw [hins.seen hclosed hstarted hlt hmax, hdata, hbefore]
    constructor
    · rintro ⟨hsame, -, -⟩
      refine ⟨fun ds' rc' rest' t₂ hrows' _ => ?_, fun _ _ _ href => absurd hstores (href.not_made hrows)⟩
      -- the rows before the one that failed are there for the next transaction
      obtain ⟨hlt, hmax⟩ := hstarted.reader
      rw [← hclosed.counter] at hlt
      have heq := hsame (db.currentTrxId + 2) hlt hmax
      rw [if_neg hfail] at heq
      have hcard := congrArg Multiset.card ((hseen _ hlt hmax).symm.trans heq)
      rw [Multiset.card_add, Multiset.coe_card, List.length_reverse] at hcard
      obtain rfl : ds = [] := List.length_eq_zero_iff.mp (Nat.add_eq_right.mp hcard)
      cases ds' with
      | nil => rfl
      | cons d ds' => cases (List.cons.inj (hrows.symm.trans hrows')).1
    · intro hholds
      obtain rfl := hholds.made ds rc rest t₁ hrows hstores
      obtain rfl := List.map_eq_nil_iff.mp hdata
      refine ⟨fun reader hlt hmax => ?_, fun reader _ _ => hins.found hclosed,
        fun _ => hins.refusesAlike hclosed.indexes⟩
      rw [if_neg hfail]
      refine (hseen reader hlt hmax).trans ?_
      rw [List.reverse_nil, Multiset.coe_nil, Multiset.zero_add]
      rfl
  | @refused ds d t₁ t₂ t₃ ops₁ ops rows rest _ rid hfail hrows hstores hins hdata hrefused hopen hindexes hback =>
    obtain ⟨rfl, t', hclosed⟩ := hopen.closeResult hstarted hclose
    obtain rfl := hrc rfl
    rw [Nat.zero_add] at hrefused
    rw [List.map_nil, List.append_nil] at hdata
    have hsame : t'.indexes = t₂.indexes := hclosed.indexes.trans hindexes
    have href : stmt.RefusesAt T t t₁ ds d := ⟨⟨rest, hrows⟩, hstores, rc, rid, t₂, hfail, hrefused⟩
    have halike : RefusesAlike t t' ↔ stmt.Spares t₁ ds d := by
      rw [RefusesAlike, hsame]
      exact hins.refused_alike_iff hdata hrefused hfail
    rw [hclosed.atomic_iff (.insert stmt) ht, halike]
    constructor
    · rintro ⟨-, -, hspared⟩
      refine ⟨fun ds' rc' rest' t₄ hrows' hstores' => absurd hstores' (href.not_made hrows'), ?_⟩
      intro ds' d' t₄ href'
      obtain ⟨rfl, rfl, rfl⟩ := href.unique href'
      exact hspared hfail
    · intro hholds
      have hspared := hholds.spared ds d t₁ href
      refine ⟨fun reader hlt _ => ?_, fun reader hlt _ => ?_, fun _ => hspared⟩
      · rw [if_neg hfail]
        exact (TakingBack.seen hback hclosed hstarted hlt).trans (hbefore reader).symm
      · refine hins.refused_found hdata hrefused hfail hsame ?_ hspared
        exact fun rid r' hr' hv => TakingBack.row_visible hback hclosed hstarted hlt hr' hv

end Miniob.Sql
