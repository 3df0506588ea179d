/-
  When an INSERT, DELETE or UPDATE statement outside multi-statement mode is all or nothing for later
  transactions.

  DELETE leaves the indexes as they are, so what counts is which rows are marked.  UPDATE does not go through the
  transaction; what it leaves in the table and in its indexes is what `open` leaves (`openUpdate_allOrNothing_iff`).
-/
import Miniob.Sql.InsertAtomic
import Miniob.Sql.Scan
import Miniob.Trx.UpdateExact

namespace Miniob.Sql

open Miniob.Common Miniob.Db Miniob.Storage Miniob.Trx TableIndex

variable {D U : Type}

/-! ## The condition -/

/-- Some transaction that starts after the commit `c` reads the row. -/
def ReadLater (c : Int) (r : Row D) : Prop :=
  ∃ reader, c < reader ∧ reader < maxTrxId ∧ Visible reader r

/-- DELETE.  A row that LOAD DATA has brought has the begin field 0 and stays visible when it is
    deleted. -/
structure DeleteStmt.HoldsWhen (T c : Int) (stmt : DeleteStmt D) (f₀ f : RecordFile D) : Prop where
  /-- If all rows of the scan can be marked, the scan has not missed one that counts. -/
  complete : (∀ rid ∈ stmt.records T f₀, Deletable T f rid) → ∀ rid r,
    selects stmt.access stmt.predicate T f₀ rid = true → f.row rid = some r → ReadLater c r →
    rid ∈ stmt.records T f₀ ∧ r.beginXid ≠ 0
  /-- Before the first row that cannot be marked, there is none that counts. -/
  stopped : ∀ pre rid post, stmt.records T f₀ = pre ++ rid :: post → (∀ s ∈ pre, Deletable T f s) →
    ¬ Deletable T f rid → ∀ s ∈ pre, ∀ r, f.row s = some r → ReadLater c r → r.beginXid = 0

/-- The statement as `openUpdate` has it. -/
def UpdateQuery.changes (stmt : UpdateQuery D) (set : SetClause D) : UpdateStmt D where
  access := stmt.access
  select := fun d => stmt.predicate.eval d = .ok true
  set := set

/-- UPDATE: the indexes list the rows of the table, the file refuses a row only if it holds more
    rows than there are, and the first index refuses none of the new rows. -/
def UpdateQuery.HoldsWhen (T : Int) (stmt : UpdateQuery D) (t : Table D U) : Prop :=
  t.Indexed ∧ (∃ capacity, HoldsRows stmt.placement capacity ∧ t.file.rids.length ≤ capacity) ∧
    ∀ set, stmt.values = .ok set → FirstIndexSpared t.indexes ((stmt.changes set).unselected T t)
      (((stmt.changes set).selected T t).map fun old => set old.2.data)

def Statement.HoldsWhen (scanned db : Database D U) (T : Int) (t : Table D U) : Statement D → Prop
  | .insert stmt => stmt.HoldsWhen T t
  | .delete stmt => stmt.childOpen = .success →
      stmt.HoldsWhen T (db.currentTrxId + 1) (recordFile scanned stmt.tid) t.file
  | .update stmt => stmt.HoldsWhen T t

/-! ## DELETE and UPDATE -/

section Statements

variable {scanned db db₁ db' : Database D U} {T : Int} {stmt : Statement D} {t : Table D U} {rc : RC}

/-- The indexes are as before, and so are the rows, up to their hidden fields. -/
theorem Deleting.atomic_iff_seen {stmt : DeleteStmt D} {t₁ t' : Table D U} {ops : List Operation}
    {gone : List RecordId} (h : Deleting T stmt.tid t.file t₁.file ops gone) (hclosed : Closed db stmt.tid t₁ ops db' t')
    (ht : db.tables stmt.tid = some t) (hindexes : t₁.indexes = t.indexes) :
    Atomic scanned db T (.delete stmt) rc db' ↔ SeenAtomic scanned db T (.delete stmt) rc db' := by
  have hsame : t'.indexes = t.indexes := hclosed.indexes.trans hindexes
  rw [hclosed.atomic_iff (.delete stmt) ht]
  refine and_iff_left ⟨fun reader _ _ => ?_, fun _ => ?_⟩
  · rw [StillFound, hsame]
    refine List.forall₂_same.mpr fun i _ rid r' hr' _ hbefore => ?_
    obtain ⟨r, hr, hdata⟩ := h.row_data hclosed hr'
    exact hdata ▸ hbefore r hr
  · rw [RefusesAlike, hsame]
    exact List.forall₂_same.mpr fun _ _ _ _ _ => Iff.rfl

/-- **DELETE.** -/
theorem delete_atomic_iff {stmt : DeleteStmt D} (hstarted : Started db T)
    (ht : db.tables stmt.tid = some t)
    (hrun : writeResult scanned db T (.delete stmt) = .ok (rc, db')) :
    Atomic scanned db T (.delete stmt) rc db' ↔ (stmt.childOpen = .success →
      stmt.HoldsWhen T (db.currentTrxId + 1) (recordFile scanned stmt.tid) t.file) := by
  obtain ⟨rc₁, db₁, rcClose, hopenRun, hclose, hrc⟩ := writeResult_ok hrun
  change openDelete scanned db T stmt = .ok (rc₁, db₁) at hopenRun
  unfold openDelete at hopenRun
  by_cases hchild : stmt.childOpen = .success
  -- the child is opened first, and nothing is deleted when this fails
  · rw [if_neg (by simpa using hchild)] at hopenRun
    obtain ⟨t₀, ht₀, hloop⟩ := ok_of_bind hopenRun
    clear hopenRun
    have hf₀ : recordFile scanned stmt.tid = t₀.file :=
      recordFile_of_table (Database.findTable_ok ht₀)
    have hf : recordFile db stmt.tid = t.file := recordFile_of_table ht
    have hstart : Deleting T stmt.tid t.file t.file [] [] :=
      ⟨fun rid => (if_neg List.not_mem_nil).symm, fun _ h => absurd h List.not_mem_nil, fun type l => by simp⟩
    have hnd : ([] ++ stmt.records T t₀.file).Nodup :=
      (scan_sublist _).nodup (stmt.access.nodup t₀.file)
    obtain ⟨t₁, ops, gone, hopen, hindexes, hdel, hcases⟩ :=
      deleteRecords_spec (hstarted.opened ht) hstart hnd hloop
    obtain ⟨hsucc, t', hclosed⟩ := hopen.closeResult hstarted hclose
    obtain rfl := hrc hsucc
    have hseen : ∀ reader, db'.currentTrxId < reader → seen db' reader stmt.tid =
        t.file.collect fun rid r => if rid ∈ gone ∧ r.beginXid ≠ 0 then none else read reader r :=
      fun reader hlt => hdel.seen hclosed hstarted hlt
    have hbefore : ∀ reader, seen db reader stmt.tid = t.file.collect fun _ => read reader :=
      fun reader => by rw [seen, hf]
    have hcounter := hclosed.counter
    rw [hdel.atomic_iff_seen hclosed ht hindexes, SeenAtomic, hf₀, hcounter]
    rw [hcounter] at hseen
    rcases hcases with ⟨rfl, hgone⟩ | ⟨hfail, pre, rid, post, hsplit, hgone, hnot⟩
    · -- told success: the rows that are left are those that the statement is not about
      rw [List.nil_append] at hgone
      have hall : ∀ rid ∈ stmt.records T t₀.file, Deletable T t.file rid := hgone ▸ hdel.deletable
      have hselected : ∀ rid ∈ gone, selects stmt.access stmt.predicate T t₀.file rid = true := by
        intro rid hrid
        rw [hgone] at hrid
        obtain ⟨hmem, r, hr, hw, heval⟩ := scan_mem hrid
        exact selects_iff.mpr ⟨hmem, r, hr, visible_of_writable hw, heval⟩
      have houtcome : ∀ reader, (Statement.delete stmt).outcome scanned db T reader =
          t.file.collect fun rid r => if selects stmt.access stmt.predicate T t₀.file rid then none
            else read reader r := by
        intro reader
        rw [Statement.outcome, hf₀, hf]
      have hle : ∀ reader rid r, t.file.row rid = some r →
          (if selects stmt.access stmt.predicate T t₀.file rid then none else read reader r) = none ∨
          (if selects stmt.access stmt.predicate T t₀.file rid then none else read reader r) =
            if rid ∈ gone ∧ r.beginXid ≠ 0 then none else read reader r := by
        intro reader rid r _
        cases hsel : selects stmt.access stmt.predicate T t₀.file rid with
        | true => exact Or.inl rfl
        | false =>
          refine Or.inr ?_
          rw [if_neg (by simp), if_neg]
          intro hand
          cases hsel.symm.trans (hselected rid hand.1)
      constructor
      · intro h _
        refine ⟨fun _ rid r hsel hr hlater => ?_, fun pre rid post hsplit _ hnot => ?_⟩
        · obtain ⟨reader, hlt, hmax, hv⟩ := hlater
          have heq := h reader hlt hmax
          rw [if_pos rfl, houtcome] at heq
          have hpoint := (RecordFile.collect_eq_iff (hle reader)).mp
            (heq.symm.trans (hseen reader hlt)) rid r hr
          rw [if_pos hsel] at hpoint
          rw [← hgone]
          by_contra hno
          rw [if_neg hno, read_eq_some.mpr ⟨hv, rfl⟩] at hpoint
          cases hpoint
        · exact absurd (hall rid (by rw [hsplit]; simp)) hnot
      · intro h reader hlt hmax
        rw [if_pos rfl, houtcome]
        refine (hseen reader hlt).trans (Eq.symm ?_)
        refine (RecordFile.collect_eq_iff (hle reader)).mpr fun rid r hr => ?_
        rcases hle reader rid r hr with hnone | heq
        · rw [hnone]
          cases hsel : selects stmt.access stmt.predicate T t₀.file rid with
          | false =>
            rw [hsel, if_neg (by simp)] at hnone
            rw [hnone, ite_self]
          | true =>
            by_cases hv : Visible reader r
            · obtain ⟨hmem, hzero⟩ := (h hchild).complete hall rid r hsel hr ⟨reader, hlt, hmax, hv⟩
              rw [if_pos ⟨hgone ▸ hmem, hzero⟩]
            · rw [read_eq_none.mpr hv, ite_self]
        · exact heq
    · -- told failure: nothing that is marked may be missed
      rw [List.nil_append] at hgone
      have hpre : ∀ s ∈ pre, Deletable T t.file s := hgone ▸ hdel.deletable
      have hle : ∀ reader rid r, t.file.row rid = some r →
          (if rid ∈ gone ∧ r.beginXid ≠ 0 then none else read reader r) = none ∨
          (if rid ∈ gone ∧ r.beginXid ≠ 0 then none else read reader r) = read reader r := by
        intro reader rid r _
        split
        · exact Or.inl rfl
        · exact Or.inr rfl
      constructor
      · intro h _
        refine ⟨fun hall => absurd (hall rid (by rw [hsplit]; simp)) hnot, ?_⟩
        intro pre' rid' post' hsplit' hpre' hnot' s hs r hr hlater
        have hs' : s ∈ pre := by
          rcases List.append_eq_append_iff.mp (hsplit.symm.trans hsplit') with
            ⟨mid, rfl, hmid⟩ | ⟨mid, rfl, hmid⟩
          · cases mid with
            | nil => simpa using hs
            | cons a mid =>
              obtain ⟨rfl, -⟩ := List.cons.inj hmid
              exact absurd (hpre' rid (by simp)) hnot
          · exact List.mem_append_left _ hs
        obtain ⟨reader, hlt, hmax, hv⟩ := hlater
        have heq := h reader hlt hmax
        rw [if_neg hfail] at heq
        have hpoint := (RecordFile.collect_eq_iff (hle reader)).mp
          ((hseen reader hlt).symm.trans (heq.trans (hbefore reader))) s r hr
        by_contra hzero
        rw [if_pos ⟨hgone ▸ hs', hzero⟩, read_eq_some.mpr ⟨hv, rfl⟩] at hpoint
        cases hpoint
      · intro h reader hlt hmax
        rw [if_neg hfail]
        refine (hseen reader hlt).trans (Eq.trans ?_ (hbefore reader).symm)
        refine (RecordFile.collect_eq_iff (hle reader)).mpr fun s r hr => ?_
        split
        · rename_i hand
          have hzero := (h hchild).stopped pre rid post hsplit hpre hnot s (hgone ▸ hand.1) r hr
          by_cases hv : Visible reader r
          · exact absurd (hzero ⟨reader, hlt, hmax, hv⟩) hand.2
          · exact (read_eq_none.mpr hv).symm
        · rfl
  · rw [if_pos hchild] at hopenRun
    obtain ⟨rfl, rfl⟩ := Prod.mk.inj (Except.ok.inj hopenRun)
    refine iff_of_true ?_ fun hsucc => absurd hsucc hchild
    obtain ⟨hsucc, t', hclosed⟩ := (hstarted.opened ht).closeResult hstarted hclose
    obtain rfl := hrc hsucc
    exact hclosed.atomic_of_idle (.delete stmt) ht fun hsucc => absurd hsucc hchild

/-- What a reader sees in a file whose rows have been replaced. -/
theorem replaced_collect {f f' : RecordFile D} {old : List (RecordId × Row D)} {set : D → D}
    (h : Replaced f f' old set) (reader : Int) :
    ∃ mid, Added mid f old ∧ (f'.collect fun _ => read reader) =
      (old.filterMap fun o => (read reader o.2).map set : List D) +
        mid.collect fun _ => read reader := by
  obtain ⟨mid, new, hold, hnew, hperm⟩ := h
  refine ⟨mid, hold, ?_⟩
  rw [hnew.collect]
  have hdata : ((new.map Prod.snd).filterMap (read reader)).Perm
      (old.filterMap fun o => (read reader o.2).map set) := by
    have hmap : (old.filterMap fun o => (read reader o.2).map set) =
        (old.map fun o => { o.2 with data := set o.2.data }).filterMap (read reader) := by
      rw [List.filterMap_map]
      refine List.filterMap_congr fun o _ => ?_
      show (read reader o.2).map set = read reader { o.2 with data := set o.2.data }
      unfold read
      by_cases hv : Visible reader o.2
      · rw [if_pos hv, if_pos (show Visible reader { o.2 with data := set o.2.data } from hv)]
        rfl
      · rw [if_neg hv, if_neg (show ¬ Visible reader { o.2 with data := set o.2.data } from hv)]
        rfl
    rw [hmap]
    exact hperm.filterMap _
  rw [List.filterMap_map] at hdata
  exact congrArg (· + mid.collect fun _ => read reader) (Multiset.coe_eq_coe.mpr hdata)

/-- What the scan returns is what the statement selects. -/
theorem UpdateQuery.mem_selected (stmt : UpdateQuery D) (set : SetClause D)
    (heof : (scan T t.file stmt.predicate (stmt.access.rids t.file)).1 = .recordEof) (rid : RecordId) :
    rid ∈ ((stmt.changes set).selected T t).map Prod.fst ↔
      selects stmt.access stmt.predicate T t.file rid = true := by
  obtain ⟨heof', hfst, hall⟩ := scan_eof heof
  have hsel : ((stmt.changes set).selected T t).map Prod.fst =
      (scan T t.file stmt.predicate (stmt.access.rids t.file)).2 := by
    rw [← hfst]
    exact congrArg _ (selected_eof heof')
  rw [hsel, selects_iff]
  constructor
  · intro hrid
    obtain ⟨hmem, r, hr, hw, heval⟩ := scan_mem hrid
    exact ⟨hmem, r, hr, visible_of_writable hw, heval⟩
  · rintro ⟨hmem, r, hr, hv, heval⟩
    exact hall rid hmem r hr hv heval

/-- What a reader should read, once the rows have been replaced. -/
theorem UpdateQuery.outcome_of_replaced {stmt : UpdateQuery D} {set : SetClause D} {f' : RecordFile D}
    (ht : db.tables stmt.tid = some t) (hset : stmt.values = .ok set)
    (heof : (scan T t.file stmt.predicate (stmt.access.rids t.file)).1 = .recordEof)
    (h : Replaced t.file f' ((stmt.changes set).selected T t) set) (reader : Int) :
    (f'.collect fun _ => read reader) = (Statement.update stmt).outcome scanned db T reader := by
  obtain ⟨mid, hold, hcollect⟩ := replaced_collect h reader
  rw [hcollect, Statement.outcome, recordFile_of_table ht, hold.collect, hset]
  dsimp only
  congr 1
  · refine congrArg _ (List.filterMap_congr fun o ho => ?_)
    rw [if_pos ((UpdateQuery.mem_selected stmt set heof o.1).mp (List.mem_map_of_mem ho))]
  · refine hold.collect_base fun rid hrid r => ?_
    rw [if_neg (fun hsel => hrid ((UpdateQuery.mem_selected stmt set heof rid).mpr hsel))]

/-- The table has its old rows, or new ones in their place, and the indexes list them. -/
theorem UpdateQuery.atomic_of_allOrNothing {stmt : UpdateQuery D} {set : SetClause D} {t' : Table D U}
    (hclosed : Closed db stmt.tid t' [] db' t') (ht : db.tables stmt.tid = some t) (hset : stmt.values = .ok set)
    (heof : (scan T t.file stmt.predicate (stmt.access.rids t.file)).1 = .recordEof)
    (hindexed : t.Indexed) (hkept : IndexesKept t t')
    (hrows : if rc = .success then Replaced t.file t'.file ((stmt.changes set).selected T t) set
      else ∃ old, Replaced t.file t'.file old id) : Atomic scanned db T (.update stmt) rc db' := by
  obtain ⟨hdef, hindexed'⟩ := hkept
  obtain ⟨hlen, hdef⟩ := forall₂_iff_getElem?.mp hdef
  refine (hclosed.atomic_iff (.update stmt) ht).mpr ⟨fun reader _ _ => ?_, fun reader _ _ => ?_, fun hrc => ?_⟩
  · refine (hclosed.seen reader).trans ?_
    split
    · rename_i hrc
      rw [if_pos hrc] at hrows
      exact UpdateQuery.outcome_of_replaced ht hset heof hrows reader
    · rename_i hrc
      rw [if_neg hrc] at hrows
      obtain ⟨old, hreplaced⟩ := hrows
      obtain ⟨mid, hold, hcollect⟩ := replaced_collect hreplaced reader
      show _ = seen db reader stmt.tid
      rw [hcollect, seen, recordFile_of_table ht, hold.collect]
      simp
  · refine forall₂_iff_getElem?.mpr ⟨hlen, fun n i i' _ hi' rid r' hr' _ _ => ?_⟩
    exact (hindexed' i' (List.mem_of_getElem? hi')).holds hr'
  · rw [if_neg hrc] at hrows
    obtain ⟨old, hreplaced⟩ := hrows
    refine forall₂_iff_getElem?.mpr ⟨hlen, fun n i i' hi hi' hu d rid => ?_⟩
    have hsame := hdef n i i' hi hi'
    have hu' : i'.unique = true := by
      rw [hsame]
      exact hu
    rw [rejects_iff_clash_of_unique (hindexed' i' (List.mem_of_getElem? hi')) hu',
      rejects_iff_clash_of_unique (hindexed i (List.mem_of_getElem? hi)) hu, clash_iff hsame,
      stores_replaced hreplaced]

/-- **UPDATE.** -/
theorem update_atomic {stmt : UpdateQuery D} (hstarted : Started db T) (ht : db.tables stmt.tid = some t)
    (hrun : writeResult scanned db T (.update stmt) = .ok (rc, db')) (h : stmt.HoldsWhen T t) :
    Atomic scanned db T (.update stmt) rc db' := by
  obtain ⟨rc₁, db₁, rcClose, hopenRun, hclose, hrc⟩ := writeResult_ok hrun
  change openUpdateQuery db T stmt = .ok (rc₁, db₁) at hopenRun
  unfold openUpdateQuery at hopenRun
  by_cases hchild : stmt.childOpen = .success
  swap
  · rw [if_pos hchild] at hopenRun
    obtain ⟨rfl, rfl⟩ := Prod.mk.inj (Except.ok.inj hopenRun)
    obtain ⟨hsucc, t', hclosed⟩ := (hstarted.opened ht).closeResult hstarted hclose
    obtain rfl := hrc hsucc
    exact hclosed.atomic_of_idle (.update stmt) ht fun hsucc => absurd hsucc hchild
  rw [if_neg (by simpa using hchild), bind_ok _ (Database.findTable_eq ht)] at hopenRun
  dsimp only at hopenRun
  cases hset : stmt.values with
  | error e =>
    rw [hset] at hopenRun
    obtain ⟨-, rfl⟩ := Prod.mk.inj (Except.ok.inj hopenRun)
    obtain ⟨-, t', hclosed⟩ := (hstarted.opened ht).closeResult hstarted hclose
    -- the new values cannot be computed; that is no error if there is no row to change
    refine hclosed.atomic_of_idle (.update stmt) ht fun _ reader => ?_
    rw [Statement.outcome, hset]
    rfl
  | ok set =>
    rw [hset] at hopenRun
    dsimp only at hopenRun
    by_cases heof : (scan T t.file stmt.predicate (stmt.access.rids t.file)).1 = .recordEof
    swap
    · rw [if_pos heof] at hopenRun
      obtain ⟨rfl, rfl⟩ := Prod.mk.inj (Except.ok.inj hopenRun)
      obtain ⟨hsucc, t', hclosed⟩ := (hstarted.opened ht).closeResult hstarted hclose
      obtain rfl := hrc hsucc
      exact hclosed.atomic_of_idle (.update stmt) ht fun hsucc => absurd hsucc (scan_ne_success _)
    rw [if_neg (by simpa using heof)] at hopenRun
    obtain ⟨⟨rc₂, t'⟩, hupdate, hdone⟩ := ok_of_bind hopenRun
    obtain ⟨rfl, rfl⟩ := Prod.mk.inj (Except.ok.inj hdone)
    -- the rows are in the table; the commit has nothing to do
    obtain ⟨hsucc, t'', hclosed⟩ := ((hstarted.opened ht).setTable t').closeResult hstarted hclose
    obtain rfl := hrc hsucc
    obtain rfl := hclosed.eq_of_nil
    obtain ⟨hindexed, ⟨capacity, hp, hfits⟩, hspared⟩ := h
    obtain ⟨rc₃, t₃, hrun₃, hkept, hrows⟩ := (openUpdate_allOrNothing_iff hindexed hp hfits).mpr (hspared set hset)
    cases hupdate.symm.trans hrun₃
    exact UpdateQuery.atomic_of_allOrNothing hclosed ht hset heof hindexed hkept hrows

end Statements

/-! ## Statement atomicity -/

/-- Transaction 3 is deleting one of three committed rows, and transaction 4 has started. -/
def lockedRow : Database Int Int :=
  match runOps Database.step oneTable [.start, .insertRecord 1 0 5 firstSlots, .insertRecord 1 0 6 firstSlots,
    .insertRecord 1 0 7 firstSlots, .commit 1, .commitOperation 1, .commitOperation 1, .commitOperation 1, .start,
    .deleteRecord 3 0 ⟨⟨1, 1⟩, by decide, by decide⟩, .start] with
  | .ok (_, db) => db
  | .error _ => oneTable

theorem reachable_lockedRow :
    Reachable Database.step (fun db a => CountsUp db a ∧ OrderedKeys a) .empty lockedRow := by
  have h₁ := reachable_oneTable.next .start ⟨by show (0 : Int) + 1 < maxTrxId; decide, trivial⟩ rfl
  have h₂ := h₁.next (.insertRecord 1 0 5 firstSlots) ⟨trivial, trivial⟩ rfl
  have h₃ := h₂.next (.insertRecord 1 0 6 firstSlots) ⟨trivial, trivial⟩ rfl
  have h₄ := h₃.next (.insertRecord 1 0 7 firstSlots) ⟨trivial, trivial⟩ rfl
  have h₅ := h₄.next (.commit 1) ⟨by show (1 : Int) + 1 < maxTrxId; decide, trivial⟩ rfl
  have h₆ := h₅.next (.commitOperation 1) ⟨trivial, trivial⟩ rfl
  have h₇ := h₆.next (.commitOperation 1) ⟨trivial, trivial⟩ rfl
  have h₈ := h₇.next (.commitOperation 1) ⟨trivial, trivial⟩ rfl
  have h₉ := h₈.next .start ⟨by show (2 : Int) + 1 < maxTrxId; decide, trivial⟩ rfl
  have h₁₀ := h₉.next (.deleteRecord 3 0 ⟨⟨1, 1⟩, by decide, by decide⟩) ⟨trivial, trivial⟩ rfl
  exact h₁₀.next .start ⟨by show (3 : Int) + 1 < maxTrxId; decide, trivial⟩ rfl

end Miniob.Sql
