/-
  Inserted rows.

  The begin field says who has inserted a row: minus a transaction's identifier while the INSERT is
  pending, and its commit identifier afterwards.  `Inserts` says that the begin fields and the
  operations of the transactions that do not roll back agree; every step but an UPDATE statement
  keeps it.
-/
import Miniob.Trx.Deletes

namespace Miniob.Trx

open Miniob.Common Miniob.Db Miniob.Storage

variable {D U : Type}

/-! ## The invariant -/

/-- The row at `l` is one that the transaction `T` has inserted. -/
def InsertedBy (T : Int) (x : MvccTrx) (l : Loc) (r : Row D) : Prop :=
  (⟨.insert, l⟩ ∈ x.pending ∧ r.beginXid = -T) ∨ x.phase = .committing r.beginXid

/-- Who has inserted which row, in every state that is reached. -/
structure Inserts (v : Versions D) : Prop where
  deletes : Deletes v
  /-- A row of an insert is there, unless the transaction is being rolled back. -/
  inserted : ∀ T x l, v.trx T = some x → x.phase ≠ .rollingBack → ⟨.insert, l⟩ ∈ x.operations →
    ∃ r, v.row l = some r ∧ InsertedBy T x l r
  /-- A commit identifier in `begin_xid` comes from an insert that is committed. -/
  created : ∀ l r, v.row l = some r → 0 < r.beginXid →
    ∃ T x, v.trx T = some x ∧ x.phase = .committing r.beginXid ∧ ⟨.insert, l⟩ ∈ x.operations

/-- The action is not an UPDATE statement. -/
def WithoutUpdate : Action D U → Prop
  | .update .. => False
  | _ => True

/-- The steps keep the deletes, and there are no UPDATE statements. -/
def KeepsInserts (db : Database D U) (a : Action D U) : Prop := KeepsDeletes db a ∧ WithoutUpdate a

/-! ## Every step keeps it -/

section Step

variable {db : Database D U}

theorem Inserts.empty : Inserts (Database.empty : Database D U).versions where
  deletes := Deletes.empty
  inserted _ _ _ h := nomatch h
  created _ _ h := nomatch h

theorem Inserts.insertedBy (h : Inserts db.versions) {T : Int} {x : MvccTrx} {l : Loc} {r : Row D}
    (hx : db.trx T = some x) (hphase : x.phase ≠ .rollingBack) (hop : ⟨.insert, l⟩ ∈ x.operations)
    (hr : db.row l = some r) : InsertedBy T x l r := by
  obtain ⟨r', hr', hins⟩ := h.inserted T x l hx hphase hop
  obtain rfl := Option.some.inj (hr.symm.trans hr')
  exact hins

/-- Only one transaction that does not roll back has inserted a row. -/
theorem Inserts.insertedBy_own (h : Inserts db.versions) {S T : Int} {x : MvccTrx} {l : Loc}
    {r : Row D} (hx : db.trx S = some x) (hphase : x.phase ≠ .rollingBack)
    (hop : ⟨.insert, l⟩ ∈ x.operations) (hr : db.row l = some r) (hT : 0 < T)
    (hb : r.beginXid = -T) : S = T := by
  rcases h.insertedBy hx hphase hop hr with ⟨-, hb'⟩ | hc
  · omega
  · have := (h.deletes.marks.trx S x hx).commitPos _ hc
    omega

/-- A transaction pushes or works off an operation, and the row of the operation changes. -/
theorem Inserts.change (h : Inserts db.versions) {T : Int} {x x' : MvccTrx} {l : Loc}
    {r' : Option (Row D)} (hdeletes : Deletes ((db.versions.setRow l r').setTrx T x'))
    (hx : db.trx T = some x) (hphase : x'.phase = x.phase)
    (hops : ∀ op ∈ x.operations, op ∈ x'.operations)
    (hpending : ∀ l' ≠ l, ⟨.insert, l'⟩ ∈ x.pending → ⟨.insert, l'⟩ ∈ x'.pending)
    (hins : ∀ l' ≠ l, ⟨.insert, l'⟩ ∈ x'.operations → ⟨.insert, l'⟩ ∈ x.operations)
    (hown : x'.phase ≠ .rollingBack → ⟨.insert, l⟩ ∈ x'.operations →
      ∃ r, r' = some r ∧ InsertedBy T x' l r)
    (hothers : ∀ S y, S ≠ T → db.trx S = some y → y.phase ≠ .rollingBack →
      ⟨.insert, l⟩ ∈ y.operations → ∃ r, r' = some r ∧ InsertedBy S y l r)
    (hcreated : ∀ r, r' = some r → 0 < r.beginXid →
      (x'.phase = .committing r.beginXid ∧ ⟨.insert, l⟩ ∈ x'.operations) ∨
        ∃ r₀, db.row l = some r₀ ∧ r₀.beginXid = r.beginXid) :
    Inserts ((db.versions.setRow l r').setTrx T x') := by
  have hcreated' : ∀ l' r₀, db.row l' = some r₀ → 0 < r₀.beginXid →
      ∃ S y, ((db.versions.setRow l r').setTrx T x').trx S = some y ∧
        y.phase = .committing r₀.beginXid ∧ ⟨.insert, l'⟩ ∈ y.operations := by
    intro l' r₀ hr₀ hpos
    obtain ⟨S, y, hy, hc, hop⟩ := h.created l' r₀ hr₀ hpos
    by_cases hS : S = T
    · subst hS
      obtain rfl := Option.some.inj (hx.symm.trans hy)
      exact ⟨S, x', Versions.setTrx_some.mpr (Or.inl ⟨rfl, rfl⟩), hphase.trans hc, hops _ hop⟩
    · exact ⟨S, y, Versions.setTrx_some.mpr (Or.inr ⟨hS, hy⟩), hc, hop⟩
  refine ⟨hdeletes, ?_, ?_⟩
  · intro S y l' hy hyp hop
    by_cases hl : l' = l
    · subst hl
      obtain ⟨r, hr, hinsBy⟩ : ∃ r, r' = some r ∧ InsertedBy S y l' r := by
        rcases Versions.setTrx_some.mp hy with ⟨rfl, rfl⟩ | ⟨hS, hy'⟩
        · exact hown hyp hop
        · exact hothers S y hS hy' hyp hop
      exact ⟨r, Versions.setRow_some.mpr (Or.inl ⟨rfl, hr⟩), hinsBy⟩
    · rcases Versions.setTrx_some.mp hy with ⟨rfl, rfl⟩ | ⟨hS, hy'⟩
      · rw [hphase] at hyp
        obtain ⟨r, hr, hor⟩ := h.inserted S x l' hx hyp (hins l' hl hop)
        refine ⟨r, Versions.setRow_some.mpr (Or.inr ⟨hl, hr⟩), ?_⟩
        unfold InsertedBy
        rw [hphase]
        exact hor.imp_left fun ⟨hmem, hb⟩ => ⟨hpending l' hl hmem, hb⟩
      · obtain ⟨r, hr, hinsBy⟩ := h.inserted S y l' hy' hyp hop
        exact ⟨r, Versions.setRow_some.mpr (Or.inr ⟨hl, hr⟩), hinsBy⟩
  · intro l' r hr hpos
    rcases Versions.setRow_some.mp hr with ⟨rfl, hr'⟩ | ⟨-, hr'⟩
    · rcases hcreated r hr' hpos with ⟨hc, hop⟩ | ⟨r₀, hr₀, hb⟩
      · exact ⟨T, x', Versions.setTrx_some.mpr (Or.inl ⟨rfl, rfl⟩), hc, hop⟩
      · rw [← hb] at hpos ⊢
        exact hcreated' l' r₀ hr₀ hpos
    · exact hcreated' l' r hr' hpos

theorem Inserts.start (h : Inserts db.versions) (hok : db.currentTrxId + 1 < maxTrxId)
    (hdeletes : Deletes ({ db.versions with currentTrxId := nextTrxId db.currentTrxId }.setTrx
      (nextTrxId db.currentTrxId) { operations := [], pending := [], phase := .active })) :
    Inserts ({ db.versions with currentTrxId := nextTrxId db.currentTrxId }.setTrx
      (nextTrxId db.currentTrxId) { operations := [], pending := [], phase := .active }) := by
  have hmarks := h.deletes.marks
  have hnonneg : 0 ≤ db.currentTrxId := hmarks.nonneg
  rw [nextTrxId_eq hnonneg hok] at hdeletes ⊢
  refine ⟨hdeletes, ?_, ?_⟩
  · intro S y l hy hyp hop
    rcases Versions.setTrx_some.mp hy with ⟨rfl, rfl⟩ | ⟨-, hy'⟩
    · cases hop
    · exact h.inserted S y l hy' hyp hop
  · intro l r hr hpos
    obtain ⟨S, y, hy, hrest⟩ := h.created l r hr hpos
    refine ⟨S, y, Versions.setTrx_some.mpr (Or.inr ⟨?_, hy⟩), hrest⟩
    have : S ≤ db.currentTrxId := (hmarks.trx S y hy).le
    omega

/-- A running transaction starts to commit or to roll back. -/
theorem Inserts.turn (h : Inserts db.versions) {T c : Int} {x x' : MvccTrx}
    (hdeletes : Deletes ({ db.versions with currentTrxId := c }.setTrx T x'))
    (hx : db.trx T = some x) (hphase : x.phase = .active) (hops : x'.operations = x.operations)
    (hpending : ∀ op, op ∈ x'.pending ↔ op ∈ x.pending) :
    Inserts ({ db.versions with currentTrxId := c }.setTrx T x') := by
  refine ⟨hdeletes, ?_, ?_⟩
  · intro S y l hy hyp hop
    rcases Versions.setTrx_some.mp hy with ⟨rfl, rfl⟩ | ⟨-, hy'⟩
    · rw [hops] at hop
      obtain ⟨r, hr, hor⟩ := h.inserted S x l hx (by rw [hphase]; nofun) hop
      refine ⟨r, hr, Or.inl ?_⟩
      rcases hor with ⟨hmem, hb⟩ | hc
      · exact ⟨(hpending _).mpr hmem, hb⟩
      · cases hphase.symm.trans hc
    · exact h.inserted S y l hy' hyp hop
  · intro l r hr hpos
    obtain ⟨S, y, hy, hc, hop⟩ := h.created l r hr hpos
    by_cases hS : S = T
    · subst hS
      obtain rfl := Option.some.inj (hx.symm.trans hy)
      cases hphase.symm.trans hc
    · exact ⟨S, y, Versions.setTrx_some.mpr (Or.inr ⟨hS, hy⟩), hc, hop⟩

theorem Inserts.insert (h : Inserts db.versions) {T : Int} {x : MvccTrx} {l : Loc} {data : D}
    (hx : db.trx T = some x) (hphase : x.phase = .active) (hfree : db.row l = none) :
    Inserts ((db.versions.setRow l (some ⟨-T, maxTrxId, data⟩)).setTrx T (x.push ⟨.insert, l⟩)) := by
  have hT := (h.deletes.marks.trx T x hx).pos
  refine h.change (h.deletes.insert hx hphase hfree) hx rfl ?_ ?_ ?_ ?_ ?_ ?_
  · exact fun op hop => List.mem_append_left _ hop
  · exact fun l' _ hop => List.mem_append_left _ hop
  · intro l' hl hop
    rcases List.mem_append.mp hop with hop | hop
    · exact hop
    · obtain rfl := (Operation.mk.inj (List.mem_singleton.mp hop)).2
      exact absurd rfl hl
  · exact fun _ _ => ⟨_, rfl, Or.inl ⟨List.mem_append_right _ (by simp), rfl⟩⟩
  · intro S y _ hy hyp hop
    obtain ⟨r, hr, -⟩ := h.inserted S y l hy hyp hop
    cases hfree.symm.trans hr
  · intro r hr hpos
    obtain rfl := Option.some.inj hr
    exact absurd hpos (by show ¬ 0 < -T; omega)

theorem Inserts.delete (h : Inserts db.versions) {T : Int} {x : MvccTrx} {l : Loc} {r : Row D}
    (hx : db.trx T = some x) (hr : db.row l = some r)
    (hdeletes : Deletes ((db.versions.setRow l (some { r with endXid := -T })).setTrx T
      (x.push ⟨.delete, l⟩))) :
    Inserts ((db.versions.setRow l (some { r with endXid := -T })).setTrx T
      (x.push ⟨.delete, l⟩)) := by
  have hpush : ∀ {l' : Loc} {ops : List Operation}, ⟨.insert, l'⟩ ∈ ops ++ [⟨.delete, l⟩] →
      ⟨.insert, l'⟩ ∈ ops := by
    intro l' ops hop
    rcases List.mem_append.mp hop with hop | hop
    · exact hop
    · cases List.mem_singleton.mp hop
  refine h.change hdeletes hx rfl ?_ ?_ ?_ ?_ ?_ ?_
  · exact fun op hop => List.mem_append_left _ hop
  · exact fun l' _ hop => List.mem_append_left _ hop
  · exact fun l' _ hop => hpush hop
  · intro hp hop
    refine ⟨_, rfl, ?_⟩
    rcases h.insertedBy hx hp (hpush hop) hr with ⟨hmem, hb⟩ | hc
    · exact Or.inl ⟨List.mem_append_left _ hmem, hb⟩
    · exact Or.inr hc
  · intro S y _ hy hyp hop
    have hinsBy := h.insertedBy hy hyp hop hr
    exact ⟨_, rfl, hinsBy⟩
  · intro r' hr' _
    obtain rfl := Option.some.inj hr'
    exact Or.inr ⟨r, hr, rfl⟩

/-- The first operation is worked off when committing. -/
theorem Inserts.commitOperation (h : Inserts db.versions) {T c : Int}
    {operations pending : List Operation} {op : Operation} {r : Row D}
    (hx : db.trx T = some ⟨operations, op :: pending, .committing c⟩) (hr : db.row op.loc = some r)
    (hxid : op.xid r = -T)
    (hdeletes : Deletes ((db.versions.setRow op.loc (some (op.setXid c r))).setTrx T
      ⟨operations, pending, .committing c⟩)) :
    Inserts ((db.versions.setRow op.loc (some (op.setXid c r))).setTrx T
      ⟨operations, pending, .committing c⟩) := by
  have hT := (h.deletes.marks.trx T _ hx).pos
  obtain ⟨type, l⟩ := op
  refine h.change hdeletes hx rfl (fun _ hop => hop) ?_ (fun _ _ hop => hop) ?_ ?_ ?_
  · intro l' hl hop
    rcases List.mem_cons.mp hop with heq | hop
    · exact absurd (Operation.mk.inj heq).2 hl
    · exact hop
  · intro hp hop
    refine ⟨_, rfl, ?_⟩
    cases type with
    | insert => exact Or.inr rfl
    | delete =>
      refine (h.insertedBy hx hp hop hr).imp_left fun ⟨hmem, hb⟩ => ⟨?_, hb⟩
      rcases List.mem_cons.mp hmem with heq | hmem
      · cases heq
      · exact hmem
  · intro S y hS hy hyp hop
    refine ⟨_, rfl, ?_⟩
    cases type with
    | insert => exact absurd (h.insertedBy_own hy hyp hop hr hT hxid) hS
    | delete =>
      have hinsBy := h.insertedBy hy hyp hop hr
      exact hinsBy
  · intro r' hr' _
    obtain rfl := Option.some.inj hr'
    cases type with
    | insert =>
      have hmem := h.deletes.sub T _ ⟨.insert, l⟩ hx (by simp)
      exact Or.inl ⟨rfl, hmem⟩
    | delete => exact Or.inr ⟨r, hr, rfl⟩

/-- The first operation is worked off when rolling back. -/
theorem Inserts.undo (h : Inserts db.versions) {T : Int} {operations pending : List Operation}
    {op : Operation} {r : Row D} {r' : Option (Row D)}
    (hx : db.trx T = some ⟨operations, op :: pending, .rollingBack⟩) (hr : db.row op.loc = some r)
    (hxid : op.xid r = -T) (hr' : (op.type = .insert ∧ r' = none) ∨
      (op.type = .delete ∧ r' = some { r with endXid := maxTrxId }))
    (hdeletes : Deletes ((db.versions.setRow op.loc r').setTrx T
      ⟨operations, pending, .rollingBack⟩)) :
    Inserts ((db.versions.setRow op.loc r').setTrx T ⟨operations, pending, .rollingBack⟩) := by
  have hT := (h.deletes.marks.trx T _ hx).pos
  -- the operation that is undone leaves the list, and no other
  refine h.change hdeletes hx rfl (fun _ hop => hop) ?_ (fun _ _ hop => hop)
    (fun hp => absurd rfl hp) ?_ ?_
  · intro l' hl hop
    rcases List.mem_cons.mp hop with heq | hop
    · exact absurd (congrArg Operation.loc heq) hl
    · exact hop
  -- an insert of another transaction is not the one that is undone
  · intro S y hS hy hyp hop
    rcases hr' with ⟨htype, rfl⟩ | ⟨htype, rfl⟩
    · rw [Operation.xid_insert htype] at hxid
      exact absurd (h.insertedBy_own hy hyp hop hr hT hxid) hS
    · have hinsBy := h.insertedBy hy hyp hop hr
      exact ⟨_, rfl, hinsBy⟩
  -- a row that is taken out has no mark any more
  · intro r₁ hr₁ _
    rcases hr' with ⟨-, rfl⟩ | ⟨-, rfl⟩
    · cases hr₁
    · obtain rfl := Option.some.inj hr₁
      exact Or.inr ⟨r, hr, rfl⟩

/-- **Step.** -/
theorem Inserts.step {a : Action D U} {v' : Versions D} (h : Inserts db.versions)
    (hok : KeepsInserts db a) (hstep : RowStep db a v') : Inserts v' := by
  have hdeletes := h.deletes.step hok.1 hstep
  have hmarks := h.deletes.marks
  cases hstep with
  | start => exact h.start hok.1.1 hdeletes
  | insert hx hphase hfree => exact h.insert hx hphase hfree
  | delete hx hphase hr hw => exact h.delete hx hr hdeletes
  | commit hx hphase => exact h.turn hdeletes hx hphase rfl fun _ => Iff.rfl
  | commitOperation hx hr hxid => exact h.commitOperation hx hr hxid hdeletes
  -- the rollback lists the same inserts the other way round
  | @rollback T x hx hphase =>
    refine h.turn (c := db.currentTrxId) hdeletes hx hphase rfl fun op => ?_
    show op ∈ x.operations.reverse ↔ _
    rw [List.mem_reverse, (hmarks.trx T x hx).active hphase]
  | @undoInsert T operations pending op r hx htype hr =>
    obtain ⟨r', hr', hxid⟩ := hmarks.marked T _ op hx (by simp) (Or.inl htype)
    exact h.undo hx hr' hxid (Or.inl ⟨htype, rfl⟩) hdeletes
  | @undoDelete T operations pending op r hx htype hr hend =>
    refine h.undo hx hr ?_ (Or.inr ⟨htype, rfl⟩) hdeletes
    rw [Operation.xid_delete htype]
    exact hend
  | update => exact hok.2.elim
  -- a loaded row begins at 0, so nobody has inserted it
  | @made tid rid data p hfree =>
    refine ⟨hdeletes, ?_, ?_⟩
    · intro S y l hy hyp hop
      obtain ⟨r, hr, hinsBy⟩ := h.inserted S y l hy hyp hop
      refine ⟨r, Versions.setRow_some.mpr (Or.inr ⟨?_, hr⟩), hinsBy⟩
      rintro rfl
      cases hfree.symm.trans hr
    · intro l r hr hpos
      rcases Versions.setRow_some.mp hr with ⟨rfl, hr'⟩ | ⟨-, hr'⟩
      · obtain rfl := Option.some.inj hr'
        exact absurd hpos (Int.lt_irrefl 0)
      · exact h.created l r hr' hpos
  | idle => exact h

end Step

end Miniob.Trx
