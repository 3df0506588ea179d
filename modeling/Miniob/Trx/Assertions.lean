/-
  The assertions of `MvccTrx::commit_with_trx_id` and `MvccTrx::rollback`.

  Both loops expect every operation that is still pending to have its mark.  A transaction that
  deletes a row it has inserted can do so again (`visit_record` does not look at the end field
  then), and works the second DELETE off after the first one has replaced the mark.  As long as
  this does not happen, operations on one row come in pairs: the INSERT first when committing, the
  DELETE first when rolling back.
-/
import Miniob.Trx.OwnWrites

namespace Miniob.Trx

open Miniob.Common Miniob.Db Miniob.Storage

variable {D U : Type}

/-- Pending operations on one row: an INSERT and a DELETE, in the order in which they can be worked
    off. -/
def Operation.Before (phase : Phase) (a b : Operation) : Prop :=
  a.loc = b.loc →
    if phase = .rollingBack then a.type = .delete ∧ b.type = .insert
    else a.type = .insert ∧ b.type = .delete

/-- What the assertions of commit and rollback ask for. -/
structure Asserted (v : Versions D) : Prop where
  marks : Marks v
  /-- The row of each operation to come is there, with the mark of its transaction. -/
  pending : ∀ T x op, v.trx T = some x → op ∈ x.pending → ∃ r, v.row op.loc = some r ∧ op.xid r = -T
  /-- Of two operations on one row the right one comes first. -/
  order : ∀ T x, v.trx T = some x → x.pending.Pairwise (Operation.Before x.phase)

/-- The steps keep the marks, and no transaction deletes a row again that it has inserted and
    deleted. -/
def DeletesOnce (db : Database D U) (a : Action D U) : Prop :=
  KeepsMarks db a ∧ match a with
    | .deleteRecord T tid rid =>
      ∀ r, db.row (tid, rid) = some r → ¬ (r.beginXid = -T ∧ r.endXid = -T)
    | _ => True

theorem Operation.Before.type_ne {phase : Phase} {a b : Operation} (h : a.Before phase b)
    (hl : a.loc = b.loc) : b.type ≠ a.type := by
  intro ht
  have := h hl
  split at this <;> simp [this.1, this.2] at ht

section Step

variable {db : Database D U}

theorem Asserted.empty : Asserted (Database.empty : Database D U).versions where
  marks := Marks.empty
  pending _ _ _ h := nomatch h
  order _ _ h := nomatch h

/-- One transaction changes, and the row at one place. -/
theorem Asserted.change (h : Asserted db.versions) {T : Int} {x x' : MvccTrx} {l : Loc}
    {r' : Option (Row D)} (hmarks : Marks ((db.versions.setRow l r').setTrx T x'))
    (hx : db.trx T = some x) (horder : x'.pending.Pairwise (Operation.Before x'.phase))
    (hsub : ∀ op ∈ x'.pending, op.loc ≠ l → op ∈ x.pending)
    (hrow : ∀ S y op, ((db.versions.setRow l r').setTrx T x').trx S = some y → op ∈ y.pending →
      op.loc = l → ∃ r, r' = some r ∧ op.xid r = -S) :
    Asserted ((db.versions.setRow l r').setTrx T x') := by
  refine ⟨hmarks, ?_, ?_⟩
  · intro S y op hy hop
    by_cases hl : op.loc = l
    · obtain ⟨r, hr, hxid⟩ := hrow S y op hy hop hl
      exact ⟨r, Versions.setRow_some.mpr (Or.inl ⟨hl, hr⟩), hxid⟩
    · obtain ⟨z, hz, hopz⟩ : ∃ z, db.trx S = some z ∧ op ∈ z.pending := by
        rcases Versions.setTrx_some.mp hy with ⟨rfl, rfl⟩ | ⟨-, hy'⟩
        · exact ⟨x, hx, hsub op hop hl⟩
        · exact ⟨y, hy', hop⟩
      obtain ⟨r, hr, hxid⟩ := h.pending S z op hz hopz
      exact ⟨r, Versions.setRow_some.mpr (Or.inr ⟨hl, hr⟩), hxid⟩
  · intro S y hy
    rcases Versions.setTrx_some.mp hy with ⟨rfl, rfl⟩ | ⟨-, hy'⟩
    · exact horder
    · exact h.order S y hy'

/-- The phase of a transaction changes, and with it the order of its pending operations. -/
theorem Asserted.turn (h : Asserted db.versions) {T c : Int} {x x' : MvccTrx}
    (hmarks : Marks ({ db.versions with currentTrxId := c }.setTrx T x')) (hx : db.trx T = some x)
    (hpending : ∀ op ∈ x'.pending, op ∈ x.pending)
    (horder : x'.pending.Pairwise (Operation.Before x'.phase)) :
    Asserted ({ db.versions with currentTrxId := c }.setTrx T x') := by
  refine ⟨hmarks, ?_, ?_⟩
  · intro S y op hy hop
    rcases Versions.setTrx_some.mp hy with ⟨rfl, rfl⟩ | ⟨-, hy'⟩
    · exact h.pending S x op hx (hpending op hop)
    · exact h.pending S y op hy' hop
  · intro S y hy
    rcases Versions.setTrx_some.mp hy with ⟨rfl, rfl⟩ | ⟨-, hy'⟩
    · exact horder
    · exact h.order S y hy'

/-- A deleted row had at most its INSERT pending. -/
theorem Asserted.insert_of_deleted (h : Asserted db.versions) {T S : Int} {l : Loc} {r : Row D}
    {y : MvccTrx} {op : Operation} (hr : db.row l = some r) (hw : Writable T r)
    (hnot : ¬ (r.beginXid = -T ∧ r.endXid = -T)) (hy : db.trx S = some y) (hop : op ∈ y.pending)
    (hl : op.loc = l) : op.type = .insert ∧ r.beginXid = -S := by
  obtain ⟨r', hr', hxid⟩ := h.pending S y op hy hop
  rw [hl] at hr'
  obtain rfl := Option.some.inj (hr.symm.trans hr')
  have hS := (h.marks.trx S y hy).pos
  cases htype : op.type with
  | insert => exact ⟨rfl, (Operation.xid_insert htype r).symm.trans hxid⟩
  | delete =>
    rw [Operation.xid_delete htype] at hxid
    exfalso
    rcases writable_iff.mp hw with ⟨-, h2, -⟩ | ⟨h1, h2⟩ | ⟨-, h2, -⟩
    · omega
    · have := h.marks.both l r hr h1 (by omega)
      omega
    · omega

/-- A row that is not marked yet is marked once. -/
theorem Asserted.delete (h : Asserted db.versions) {T : Int} {x : MvccTrx} {l : Loc} {r : Row D}
    (hx : db.trx T = some x) (hphase : x.phase = .active) (hr : db.row l = some r)
    (hw : Writable T r) (hnot : ¬ (r.beginXid = -T ∧ r.endXid = -T)) :
    Asserted ((db.versions.setRow l (some { r with endXid := -T })).setTrx T
      (x.push ⟨.delete, l⟩)) := by
  have hold : ∀ S y op, db.trx S = some y → op ∈ y.pending → op.loc = l →
      op.type = .insert ∧ r.beginXid = -S := fun S y op =>
    h.insert_of_deleted hr hw hnot
  refine h.change (h.marks.delete hx hphase hr hw) hx ?_ ?_ ?_
  · refine List.pairwise_append.mpr ⟨h.order T x hx, List.pairwise_singleton .., ?_⟩
    intro a ha b hb hab
    obtain rfl := List.mem_singleton.mp hb
    show if x.phase = .rollingBack then _ else _
    rw [if_neg (by rw [hphase]; nofun)]
    exact ⟨(hold T x a hx ha hab).1, rfl⟩
  · intro op hop hl
    rcases List.mem_append.mp hop with hop | hop
    · exact hop
    · obtain rfl := List.mem_singleton.mp hop
      exact absurd rfl hl
  · intro S y op hy hop hl
    have hcase : (∃ z, db.trx S = some z ∧ op ∈ z.pending) ∨ (S = T ∧ op.type = .delete) := by
      rcases Versions.setTrx_some.mp hy with ⟨rfl, rfl⟩ | ⟨-, hy'⟩
      · rcases List.mem_append.mp hop with hop | hop
        · exact Or.inl ⟨x, hx, hop⟩
        · obtain rfl := List.mem_singleton.mp hop
          exact Or.inr ⟨rfl, rfl⟩
      · exact Or.inl ⟨y, hy', hop⟩
    refine ⟨_, rfl, ?_⟩
    rcases hcase with ⟨z, hz, hopz⟩ | ⟨rfl, htype⟩
    · obtain ⟨htype, hb⟩ := hold S z op hz hopz hl
      rw [Operation.xid_insert htype]
      exact hb
    · rw [Operation.xid_delete htype]

/-- The place was free, so there was no operation on it. -/
theorem Asserted.insert (h : Asserted db.versions) {T : Int} {x : MvccTrx} {l : Loc} {data : D}
    (hx : db.trx T = some x) (hphase : x.phase = .active) (hfree : db.row l = none) :
    Asserted ((db.versions.setRow l (some ⟨-T, maxTrxId, data⟩)).setTrx T
      (x.push ⟨.insert, l⟩)) := by
  have hnot : ∀ S y op, db.trx S = some y → op ∈ y.pending → op.loc ≠ l := fun S y op hy hop hl => by
    obtain ⟨r, hr, -⟩ := h.pending S y op hy hop
    rw [hl] at hr
    cases hfree.symm.trans hr
  refine h.change (h.marks.insert hx hphase hfree) hx ?_ ?_ ?_
  · refine List.pairwise_append.mpr ⟨h.order T x hx, List.pairwise_singleton .., ?_⟩
    intro a ha b hb hab
    obtain rfl := List.mem_singleton.mp hb
    exact absurd hab (hnot T x a hx ha)
  · intro op hop hl
    rcases List.mem_append.mp hop with hop | hop
    · exact hop
    · obtain rfl := List.mem_singleton.mp hop
      exact absurd rfl hl
  · intro S y op hy hop hl
    rcases Versions.setTrx_some.mp hy with ⟨rfl, rfl⟩ | ⟨-, hy'⟩
    · rcases List.mem_append.mp hop with hop | hop
      · exact absurd hl (hnot S x op hx hop)
      · obtain rfl := List.mem_singleton.mp hop
        exact ⟨_, rfl, rfl⟩
    · exact absurd hl (hnot S y op hy' hop)

/-- The first pending operation is worked off: its mark is replaced, or its row is removed. -/
theorem Asserted.workOff (h : Asserted db.versions) {T : Int} {operations pending : List Operation}
    {op : Operation} {phase : Phase} {r : Row D} {r' : Option (Row D)}
    (hmarks : Marks ((db.versions.setRow op.loc r').setTrx T ⟨operations, pending, phase⟩))
    (hx : db.trx T = some ⟨operations, op :: pending, phase⟩) (hr : db.row op.loc = some r)
    (hr' : (∃ c, r' = some (op.setXid c r)) ∨
      (op.type = .insert ∧ phase = .rollingBack ∧ r' = none)) :
    Asserted ((db.versions.setRow op.loc r').setTrx T ⟨operations, pending, phase⟩) := by
  obtain ⟨horder, htail⟩ := List.pairwise_cons.mp (h.order T _ hx)
  refine h.change hmarks hx htail (fun op' hop _ => List.mem_cons_of_mem op hop) ?_
  intro S y op' hy hop hl
  -- the other pending operation was pending before, and if it is of the same transaction then the order holds
  obtain ⟨z, hz, hopz, hST⟩ :
      ∃ z, db.trx S = some z ∧ op' ∈ z.pending ∧ (S = T → op.Before phase op') := by
    rcases Versions.setTrx_some.mp hy with ⟨rfl, rfl⟩ | ⟨hS, hy'⟩
    · exact ⟨_, hx, List.mem_cons_of_mem op hop, fun _ => horder op' hop⟩
    · exact ⟨y, hy', hop, fun hST => absurd hST hS⟩
  -- a pending operation has its mark on the row
  have hfield : ∀ S z op', db.trx S = some z → op' ∈ z.pending → op'.loc = op.loc →
      op'.xid r = -S := by
    intro S z op' hz hopz hl
    obtain ⟨r₁, hr₁, hxid⟩ := h.pending S z op' hz hopz
    rw [hl] at hr₁
    obtain rfl := Option.some.inj (hr.symm.trans hr₁)
    exact hxid
  have hxid := hfield T _ op hx (by simp) rfl
  have hxid' := hfield S z op' hz hopz hl
  -- two pending operations of one type on one row would be of one transaction, and the order excludes them
  have htype : op'.type ≠ op.type := by
    intro ht
    exact (hST (Operation.xid_eq ht hxid' hxid)).type_ne hl.symm ht
  -- the mark that is removed is the other one of the row, or the row itself goes
  rcases hr' with ⟨c, rfl⟩ | ⟨hins, rfl, rfl⟩
  · exact ⟨_, rfl, by rw [Operation.xid_setXid_of_ne htype]; exact hxid'⟩
  · -- a pending DELETE of the row is one of T, and comes before the INSERT
    exfalso
    have hdel : op'.type = .delete := by
      cases hop' : op'.type with
      | insert => exact absurd (hop'.trans hins.symm) htype
      | delete => rfl
    rw [Operation.xid_insert hins] at hxid
    rw [Operation.xid_delete hdel] at hxid'
    have hS := (h.marks.trx S z hz).pos
    have hT := (h.marks.trx T _ hx).pos
    have hboth := h.marks.both op.loc r hr (by omega) (by omega)
    have hbefore := hST (by omega) hl.symm
    rw [if_pos rfl, hins] at hbefore
    cases hbefore.1

/-- Rows without marks come and go. -/
theorem Asserted.rewrite (h : Asserted db.versions) {f : Loc → Option (Row D)}
    (hmarks : Marks { db.versions with row := f })
    (hrow : ∀ l, f l = db.row l ∨ db.row l = none ∨
      ∃ r, db.row l = some r ∧ 0 ≤ r.beginXid ∧ 0 ≤ r.endXid) :
    Asserted { db.versions with row := f } := by
  refine ⟨hmarks, ?_, h.order⟩
  intro T x op hx hop
  obtain ⟨r, hr, hxid⟩ := h.pending T x op hx hop
  rcases hrow op.loc with heq | hnone | ⟨r₁, hr₁, hb, he⟩
  · exact ⟨r, heq.trans hr, hxid⟩
  · cases hnone.symm.trans hr
  · obtain rfl := Option.some.inj (hr₁.symm.trans hr)
    have hT := (h.marks.trx T x hx).pos
    unfold Operation.xid at hxid
    split at hxid <;> omega

/-- **Step.** -/
theorem Asserted.step {a : Action D U} {v' : Versions D} (h : Asserted db.versions)
    (hok : DeletesOnce db a) (hstep : RowStep db a v') : Asserted v' := by
  have hmarks := h.marks.step hok.1 hstep
  cases hstep with
  | start =>
    refine ⟨hmarks, ?_, ?_⟩
    · intro S y op hy hop
      rcases Versions.setTrx_some.mp hy with ⟨rfl, rfl⟩ | ⟨-, hy'⟩
      · cases hop
      · exact h.pending S y op hy' hop
    · intro S y hy
      rcases Versions.setTrx_some.mp hy with ⟨rfl, rfl⟩ | ⟨-, hy'⟩
      · exact .nil
      · exact h.order S y hy'
  | insert hx hphase hfree => exact h.insert hx hphase hfree
  | delete hx hphase hr hw => exact h.delete hx hphase hr hw (hok.2 _ hr)
  -- the order of the operations stays, and so do the marks
  | @commit T x hx hphase =>
    refine h.turn hmarks hx (fun _ hop => hop) ((h.order T x hx).imp fun hab hl => ?_)
    have := hab hl
    rw [if_neg (by rw [hphase]; nofun)] at this
    rw [if_neg nofun]
    exact this
  | commitOperation hx hr hxid => exact h.workOff hmarks hx hr (Or.inl ⟨_, rfl⟩)
  -- the operations are worked off from the last one to the first, so the order turns round
  | @rollback T x hx hphase =>
    have hall := (h.marks.trx T x hx).active hphase
    refine h.turn (c := db.currentTrxId) hmarks hx ?_ ?_
    · intro op hop
      rw [hall]
      exact List.mem_reverse.mp hop
    · refine List.pairwise_reverse.mpr ?_
      show x.operations.Pairwise _
      rw [← hall]
      refine (h.order T x hx).imp fun {a b} hab hl => ?_
      have := hab hl.symm
      rw [if_neg (by rw [hphase]; nofun)] at this
      rw [if_pos rfl]
      exact this.symm
  | undoInsert hx htype hr => exact h.workOff hmarks hx hr (Or.inr ⟨htype, rfl, rfl⟩)
  -- clearing the end mark is what working off a DELETE does to the row
  | @undoDelete T operations pending op r hx htype hr hend =>
    have hset : ({ r with endXid := maxTrxId } : Row D) = op.setXid maxTrxId r := by
      unfold Operation.setXid
      rw [htype]
    rw [hset] at hmarks ⊢
    exact h.workOff hmarks hx hr (Or.inl ⟨_, rfl⟩)
  -- an UPDATE takes up rows without a mark of a transaction, so no pending operation is about them
  | @update T tid stmt p row' hx hrow =>
    refine h.rewrite hmarks fun l => (hrow l).imp_right fun ⟨hold, _⟩ => hold.imp_right ?_
    rintro ⟨r, hs⟩
    exact ⟨r, hs.row.1, unmarked_of_selected hs.row.2 (hok.1 l r hs)⟩
  | @made tid rid data p hfree =>
    refine h.rewrite (f := (db.versions.setRow (tid, rid) (some ⟨0, 0, data⟩)).row) hmarks
      fun l => ?_
    rw [Versions.setRow_row]
    by_cases hl : l = (tid, rid)
    · subst hl
      exact Or.inr (Or.inl hfree)
    · exact Or.inl (if_neg hl)
  | idle => exact h

end Step

/-- **Run.** -/
theorem asserted_of_reachable {db : Database D U} (h : Reachable Database.step DeletesOnce .empty db) :
    Asserted db.versions :=
  h.invariant (I := fun db => Asserted db.versions) Asserted.empty
    fun _ _ _ _ hdb hok hstep => hdb.step hok (Database.step_rowStep hstep)

/-! ## The loops -/

/-- What the loops of `commit_with_trx_id` and `rollback` assert of a transaction: the rows of its
    pending operations are there and carry their marks, so that no assertion fires. -/
def AssertionsHold (db : Database D U) (T : Int) : Prop :=
  (∀ x op, db.trx T = some x → op ∈ x.pending → ∃ r, db.row op.loc = some r ∧ op.xid r = -T) ∧
  db.commitOperation T ≠ .error .commit ∧ db.rollbackOperation T ≠ .error .rollback

theorem findTable_of_row {db : Database D U} {l : Loc} {r : Row D} (h : db.row l = some r) :
    ∃ t, db.findTable l.1 = .ok t ∧ t.file.row l.2 = some r := by
  unfold Database.row at h
  obtain ⟨t, ht, hr⟩ := Option.bind_eq_some_iff.mp h
  refine ⟨t, ?_, hr⟩
  unfold Database.findTable
  rw [ht]

/-- A commit finds the marks that it expects. -/
theorem Asserted.commitOperation {db : Database D U} (h : Asserted db.versions) (T : Int) :
    db.commitOperation T ≠ .error .commit := by
  intro herr
  unfold Database.commitOperation at herr
  split at herr
  · rename_i operations op pending c hx
    obtain ⟨r, hr, hxid⟩ := h.pending T _ op hx (by simp)
    obtain ⟨t, ht, hrow⟩ := findTable_of_row hr
    rw [bind_ok _ ht, hrow] at herr
    dsimp only at herr
    rw [if_neg (not_not.mpr hxid)] at herr
    cases herr
  · cases herr

/-- So does a rollback. -/
theorem Asserted.rollbackOperation {db : Database D U} (h : Asserted db.versions) (T : Int) :
    db.rollbackOperation T ≠ .error .rollback := by
  intro herr
  unfold Database.rollbackOperation at herr
  split at herr
  · rename_i operations op pending hx
    obtain ⟨r, hr, hxid⟩ := h.pending T _ op hx (by simp)
    obtain ⟨t, ht, hrow⟩ := findTable_of_row hr
    rw [bind_ok _ ht] at herr
    dsimp only at herr
    split at herr
    · cases hdel : t.deleteRecordAt op.loc.2 with
      | error f =>
        rw [hdel] at herr
        obtain rfl : f = .rollback := Except.error.inj herr
        exact Table.deleteRecordAt_error hdel rfl
      | ok out =>
        rw [bind_ok _ hdel] at herr
        rcases Table.deleteRecordAt_file hdel with ⟨-, hnone, -⟩ | ⟨hrc, -, -⟩
        · cases hnone.symm.trans hrow
        · rw [if_neg (not_not.mpr hrc)] at herr
          cases herr
    · rename_i htype
      rw [Operation.xid_delete htype] at hxid
      rw [hrow] at herr
      dsimp only at herr
      rw [if_neg (not_not.mpr hxid)] at herr
      cases herr
  · cases herr

/-- **Headline.**  No assertion of the two loops fires in a run in which no transaction deletes a row
    again that it has inserted and deleted, and no UPDATE statement takes up a row that its own
    transaction has inserted. -/
theorem assertions_never_fire (db : Database D U)
    (h : Reachable Database.step DeletesOnce .empty db) (T : Int) : AssertionsHold db T := by
  have hdb := asserted_of_reachable h
  refine ⟨?_, hdb.commitOperation T, hdb.rollbackOperation T⟩
  intro x op hx hop
  exact hdb.pending T x op hx hop

/-- A row is inserted and deleted. -/
theorem assertions_never_fire_deleted : ∃ db : Database Int Int, AssertionsHold db 1 := by
  have h₀ : Reachable Database.step DeletesOnce (.empty : Database Int Int) .empty := .init
  have h₁ := h₀.next (.createTable 0) ⟨trivial, trivial⟩ rfl
  have h₂ := h₁.next .start ⟨by show (0 : Int) + 1 < maxTrxId; decide, trivial⟩ rfl
  have h₃ := h₂.next (.insertRecord 1 0 7 firstSlots) ⟨trivial, trivial⟩ rfl
  have h₄ := h₃.next (.deleteRecord 1 0 ⟨⟨1, 0⟩, by decide, by decide⟩)
    ⟨trivial, fun r hr => by obtain rfl := Option.some.inj hr; decide⟩ rfl
  have h₅ := h₄.next (.commit 1) ⟨by show (1 : Int) + 1 < maxTrxId; decide, trivial⟩ rfl
  exact ⟨_, assertions_never_fire _ h₅ 1⟩

/-- A second DELETE of one's own row: the commit works the first one off and stops at the second. -/
theorem second_delete_stops_commit :
    ¬ ∀ (db : Database Int Int), Reachable Database.step KeepsMarks .empty db →
      ∀ T, AssertionsHold db T := by
  intro h
  have h₀ : Reachable Database.step KeepsMarks (.empty : Database Int Int) .empty := .init
  have h₁ := h₀.next (.createTable 0) trivial rfl
  have h₂ := h₁.next .start (by show (0 : Int) + 1 < maxTrxId; decide) rfl
  have h₃ := h₂.next (.insertRecord 1 0 7 firstSlots) trivial rfl
  have h₄ := h₃.next (.deleteRecord 1 0 ⟨⟨1, 0⟩, by decide, by decide⟩) trivial rfl
  have h₅ := h₄.next (.deleteRecord 1 0 ⟨⟨1, 0⟩, by decide, by decide⟩) trivial rfl
  have h₆ := h₅.next (.commit 1) (by show (1 : Int) + 1 < maxTrxId; decide) rfl
  have h₇ := h₆.next (.commitOperation 1) trivial rfl
  have h₈ := h₇.next (.commitOperation 1) trivial rfl
  exact (h _ h₈ 1).2.1 rfl

end Miniob.Trx
