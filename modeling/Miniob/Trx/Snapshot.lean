/-
  What a transaction sees of the others.

  A row version that is committed carries the commit identifier of whoever has inserted it, and
  that of whoever has deleted it.  A transaction compares both with its own identifier, so it sees
  the rows as they were committed when it started.  While a DELETE is pending, however,
  `visit_record` looks at the end mark only: the row is shown to everybody else, also to those who
  started before it was committed.
-/
import Miniob.Trx.Inserts

namespace Miniob.Trx

open Miniob.Common Miniob.Db Miniob.Storage

variable {D U : Type}

/-! ## The invariant -/

structure Snapshots (v : Versions D) : Prop where
  deletes : Deletes v
  inserted : ∀ T x l, v.trx T = some x → x.phase ≠ .rollingBack → ⟨.insert, l⟩ ∈ x.operations →
    ∃ r, v.row l = some r ∧ InsertedBy T x l r
  created : ∀ l r, v.row l = some r → 0 < r.beginXid →
    ∃ T x, v.trx T = some x ∧ x.phase = .committing r.beginXid ∧ ⟨.insert, l⟩ ∈ x.operations
  /-- Who runs while somebody else deletes a committed row has started after its INSERT. -/
  older : ∀ l r, v.row l = some r → 0 < r.beginXid → r.endXid < 0 → ∀ T x, v.trx T = some x →
    x.phase = .active → T ≠ -r.endXid → r.beginXid < T
  /-- Who has an older commit identifier than a running transaction has finished. -/
  settled : ∀ S T x y c, v.trx S = some x → x.phase = .committing c → v.trx T = some y →
    y.phase = .active → c < T → x.pending = []

/-- No transaction starts in the middle of a commit, and deleted rows are known to everybody who runs:
    they were committed before, or nobody else is running when their INSERT is committed together
    with their DELETE.  UPDATE statements are left out. -/
def KeepsSnapshots (db : Database D U) (a : Action D U) : Prop :=
  KeepsDeletes db a ∧ match a with
    | .start => ∀ S x c, db.trx S = some x → x.phase = .committing c → x.pending = []
    | .deleteRecord T tid rid => ∀ r, db.row (tid, rid) = some r → Writable T r →
      ∀ S y, db.trx S = some y → y.phase = .active → S ≠ T → r.beginXid < S
    | .commitOperation T => ∀ x op pending r, db.trx T = some x → x.pending = op :: pending →
      op.type = .insert → db.row op.loc = some r → r.endXid < 0 →
      ∀ S y, db.trx S = some y → y.phase ≠ .active
    | .update .. => False
    | _ => True

/-! ## Every step keeps it -/

section Step

variable {db : Database D U}

theorem Snapshots.empty : Snapshots (Database.empty : Database D U).versions where
  deletes := Deletes.empty
  inserted _ _ _ h := nomatch h
  created _ _ h := nomatch h
  older _ _ h := nomatch h
  settled _ _ _ _ _ h := nomatch h

theorem Snapshots.inserts {v : Versions D} (h : Snapshots v) : Inserts v :=
  ⟨h.deletes, h.inserted, h.created⟩

theorem KeepsSnapshots.inserts {a : Action D U} (h : KeepsSnapshots db a) : KeepsInserts db a := by
  refine ⟨h.1, ?_⟩
  cases a with
  | update => exact h.2
  | _ => trivial

/-- A transaction pushes or works off an operation, and the row of the operation changes. -/
theorem Snapshots.change (h : Snapshots db.versions) {T : Int} {x x' : MvccTrx} {l : Loc}
    {r' : Option (Row D)} (hinserts : Inserts ((db.versions.setRow l r').setTrx T x'))
    (hx : db.trx T = some x) (hphase : x'.phase = x.phase)
    (hdone : x.phase ≠ .active → x.pending = [] → x'.pending = [])
    (holder : ∀ r, r' = some r → 0 < r.beginXid → r.endXid < 0 → ∀ S y, db.trx S = some y →
      y.phase = .active → S ≠ -r.endXid → r.beginXid < S) :
    Snapshots ((db.versions.setRow l r').setTrx T x') := by
  have hback : ∀ {S y}, ((db.versions.setRow l r').setTrx T x').trx S = some y →
      ∃ z, db.trx S = some z ∧ z.phase = y.phase ∧
        (z.phase ≠ .active → z.pending = [] → y.pending = []) := by
    intro S y hy
    rcases Versions.setTrx_some.mp hy with ⟨rfl, rfl⟩ | ⟨-, hy'⟩
    · exact ⟨x, hx, hphase.symm, hdone⟩
    · exact ⟨y, hy', rfl, fun _ hnil => hnil⟩
  refine ⟨hinserts.deletes, hinserts.inserted, hinserts.created, ?_, ?_⟩
  · intro l' r hr hpos hneg S y hy hactive hne
    obtain ⟨z, hz, hzp, -⟩ := hback hy
    rcases Versions.setRow_some.mp hr with ⟨rfl, hr'⟩ | ⟨-, hr'⟩
    · exact holder r hr' hpos hneg S z hz (hzp.trans hactive) hne
    · exact h.older l' r hr' hpos hneg S z hz (hzp.trans hactive) hne
  · intro S S' y y' c hy hc hy' hactive hlt
    obtain ⟨z, hz, hzp, hznil⟩ := hback hy
    obtain ⟨z', hz', hzp', -⟩ := hback hy'
    have hzc := hzp.trans hc
    exact hznil (by rw [hzc]; nofun) (h.settled S S' z z' c hz hzc hz' (hzp'.trans hactive) hlt)

theorem Snapshots.start (h : Snapshots db.versions) (hok : db.currentTrxId + 1 < maxTrxId)
    (hsettled : ∀ S x c, db.trx S = some x → x.phase = .committing c → x.pending = [])
    (hinserts : Inserts ({ db.versions with currentTrxId := nextTrxId db.currentTrxId }.setTrx
      (nextTrxId db.currentTrxId) { operations := [], pending := [], phase := .active })) :
    Snapshots ({ db.versions with currentTrxId := nextTrxId db.currentTrxId }.setTrx
      (nextTrxId db.currentTrxId) { operations := [], pending := [], phase := .active }) := by
  have hmarks := h.deletes.marks
  have hnonneg : 0 ≤ db.currentTrxId := hmarks.nonneg
  rw [nextTrxId_eq hnonneg hok] at hinserts ⊢
  refine ⟨hinserts.deletes, hinserts.inserted, hinserts.created, ?_, ?_⟩
  · intro l r hr hpos hneg S y hy hactive hne
    rcases Versions.setTrx_some.mp hy with ⟨rfl, rfl⟩ | ⟨-, hy'⟩
    · obtain ⟨S', y', hy', hc, -⟩ := h.created l r hr hpos
      have : r.beginXid ≤ db.currentTrxId := (hmarks.trx S' y' hy').commitLe _ hc
      omega
    · exact h.older l r hr hpos hneg S y hy' hactive hne
  · intro S S' y y' c hy hc hy' hactive hlt
    rcases Versions.setTrx_some.mp hy with ⟨rfl, rfl⟩ | ⟨-, hy₀⟩
    · cases hc
    · exact hsettled S y c hy₀ hc

/-- A running transaction starts to commit or to roll back. -/
theorem Snapshots.turn (h : Snapshots db.versions) {T c : Int} {x' : MvccTrx}
    (hinserts : Inserts ({ db.versions with currentTrxId := c }.setTrx T x'))
    (hturn : x'.phase = .committing (db.currentTrxId + 1) ∨ x'.phase = .rollingBack) :
    Snapshots ({ db.versions with currentTrxId := c }.setTrx T x') := by
  have hnot : x'.phase ≠ .active := by
    rcases hturn with hc | hr
    · rw [hc]
      nofun
    · rw [hr]
      nofun
  refine ⟨hinserts.deletes, hinserts.inserted, hinserts.created, ?_, ?_⟩
  · intro l r hr hpos hneg S y hy hactive hne
    rcases Versions.setTrx_some.mp hy with ⟨rfl, rfl⟩ | ⟨-, hy'⟩
    · exact absurd hactive hnot
    · exact h.older l r hr hpos hneg S y hy' hactive hne
  · intro S S' y y' k hy hk hy' hactive hlt
    rcases Versions.setTrx_some.mp hy' with ⟨rfl, rfl⟩ | ⟨-, hy₁⟩
    · exact absurd hactive hnot
    · rcases Versions.setTrx_some.mp hy with ⟨rfl, rfl⟩ | ⟨-, hy₀⟩
      · -- the commit identifier is above all identifiers
        rcases hturn with hc | hr
        · obtain rfl := Phase.committing.inj (hc.symm.trans hk)
          have : S' ≤ db.currentTrxId := (h.deletes.marks.trx S' y' hy₁).le
          omega
        · cases hr.symm.trans hk
      · exact h.settled S S' y y' k hy₀ hk hy₁ hactive hlt

/-- **Step.** -/
theorem Snapshots.step {a : Action D U} {v' : Versions D} (h : Snapshots db.versions)
    (hok : KeepsSnapshots db a) (hstep : RowStep db a v') : Snapshots v' := by
  have hinserts := h.inserts.step hok.inserts hstep
  have hmarks := h.deletes.marks
  -- the rows older than a snapshot stay so: a step writes only marks above it or marks of its own
  cases hstep with
  | start => exact h.start hok.1.1 hok.2 hinserts
  | @insert T x tid rid data p hx hphase hfree =>
    have hT := (hmarks.trx T x hx).pos
    refine h.change hinserts hx rfl (fun hp => absurd hphase hp) ?_
    intro r hr hpos
    obtain rfl := Option.some.inj hr
    exact absurd hpos (by show ¬ 0 < -T; omega)
  -- no running transaction but the deleting one may still see the row
  | @delete T x tid rid r hx hphase hr hw =>
    refine h.change hinserts hx rfl (fun hp => absurd hphase hp) ?_
    intro r' hr' _ _ S y hy hactive hne
    obtain rfl := Option.some.inj hr'
    refine hok.2 r hr hw S y hy hactive fun hS => hne ?_
    show S = - -T
    omega
  -- the new id is above the snapshot of every transaction
  | commit hx hphase =>
    have hnext : nextTrxId db.currentTrxId = db.currentTrxId + 1 :=
      nextTrxId_eq hmarks.nonneg hok.1.1
    refine h.turn hinserts (Or.inl ?_)
    rw [← hnext]
  | @commitOperation T c operations pending op r hx hr hxid =>
    have hc := (hmarks.trx T _ hx).commitPos c rfl
    refine h.change hinserts hx rfl (fun _ hnil => nomatch hnil) ?_
    intro r' hr' _ hneg S y hy hactive
    obtain rfl := Option.some.inj hr'
    -- an insert that is committed gets an id, and this keeps it out of the snapshots
    obtain ⟨type, l⟩ := op
    cases type with
    | insert => exact absurd hactive (hok.2 _ _ _ _ hx rfl rfl hr hneg S y hy)
    | delete => exact absurd hneg (by show ¬ c < 0; omega)
  | rollback hx hphase => exact h.turn (c := db.currentTrxId) hinserts (Or.inr rfl)
  | undoInsert hx htype hr => exact h.change hinserts hx rfl (fun _ hnil => nomatch hnil) nofun
  | undoDelete hx htype hr hend =>
    refine h.change hinserts hx rfl (fun _ hnil => nomatch hnil) ?_
    intro r₁ hr₁ _ hneg
    obtain rfl := Option.some.inj hr₁
    exact absurd hneg (by show ¬ maxTrxId < 0; decide)
  | update => exact hok.2.elim
  | @made tid rid data p hfree =>
    refine ⟨hinserts.deletes, hinserts.inserted, hinserts.created, ?_, h.settled⟩
    intro l r hr hpos
    rcases Versions.setRow_some.mp hr with ⟨rfl, hr'⟩ | ⟨-, hr'⟩
    · obtain rfl := Option.some.inj hr'
      exact absurd hpos (Int.lt_irrefl 0)
    · exact h.older l r hr' hpos
  | idle => exact h

end Step

/-- **Run.** -/
theorem snapshots_of_reachable {ok : Database D U → Action D U → Prop}
    (himp : ∀ db a, ok db a → KeepsSnapshots db a) {db : Database D U}
    (h : Reachable Database.step ok .empty db) : Snapshots db.versions :=
  h.invariant (I := fun db => Snapshots db.versions) Snapshots.empty
    fun _ _ _ _ hdb hok hstep => hdb.step (himp _ _ hok) (Database.step_rowStep hstep)

/-! ## Reads -/

/-- The transaction's commit was complete before `T` started, and it has performed `op`. -/
def DoneBefore (db : Database D U) (T : Int) (op : Operation) : Prop :=
  ∃ S x c, db.trx S = some x ∧ x.phase = .committing c ∧ x.pending = [] ∧ c < T ∧ op ∈ x.operations

/-- What one should see at a place, from the operations committed before and one's own. -/
def InSnapshot (before own : Operation → Prop) (l : Loc) : Prop :=
  own ⟨.insert, l⟩ ∨ before ⟨.insert, l⟩ ∧ ¬ before ⟨.delete, l⟩ ∧ ¬ own ⟨.delete, l⟩

/-- There is a row at `l`, and the transaction sees it. -/
def Sees (db : Database D U) (T : Int) (l : Loc) : Prop := ∃ r, db.row l = some r ∧ Visible T r

section Reads

variable {db : Database D U}

/-- Commit identifiers are no transaction identifiers. -/
theorem Snapshots.lt_iff_le (h : Snapshots db.versions) {S T c : Int} {x y : MvccTrx}
    (hx : db.trx S = some x) (hc : x.phase = .committing c) (hy : db.trx T = some y) :
    c < T ↔ c ≤ T := by
  have := (h.deletes.ids S T x y c hx hc hy).1
  omega

/-- An INSERT committed before is one whose identifier the row carries. -/
theorem Snapshots.insertedBefore_iff (h : Snapshots db.versions) {T : Int} {y : MvccTrx} {l : Loc}
    {r : Row D} (hy : db.trx T = some y) (hactive : y.phase = .active) (hr : db.row l = some r) :
    DoneBefore db T ⟨.insert, l⟩ ↔ 0 < r.beginXid ∧ r.beginXid ≤ T := by
  constructor
  · rintro ⟨S, x, c, hx, hc, hdone, hlt, hop⟩
    have hpos := (h.deletes.marks.trx S x hx).commitPos c hc
    rcases h.inserts.insertedBy hx (by rw [hc]; nofun) hop hr with ⟨hmem, -⟩ | hc'
    · rw [hdone] at hmem
      cases hmem
    · obtain rfl := Phase.committing.inj (hc.symm.trans hc')
      exact ⟨hpos, Int.le_of_lt hlt⟩
  · rintro ⟨hpos, hle⟩
    obtain ⟨S, x, hx, hc, hop⟩ := h.created l r hr hpos
    have hlt := (h.lt_iff_le hx hc hy).mpr hle
    exact ⟨S, x, _, hx, hc, h.settled S T x y _ hx hc hy hactive hlt, hlt, hop⟩

/-- A DELETE committed before is one whose identifier the row carries. -/
theorem Snapshots.deletedBefore_iff (h : Snapshots db.versions) {T : Int} {y : MvccTrx} {l : Loc}
    {r : Row D} (hy : db.trx T = some y) (hactive : y.phase = .active) (hr : db.row l = some r) :
    DoneBefore db T ⟨.delete, l⟩ ↔ 0 < r.endXid ∧ r.endXid < T := by
  constructor
  · rintro ⟨S, x, c, hx, hc, hdone, hlt, hop⟩
    have hpos := (h.deletes.marks.trx S x hx).commitPos c hc
    obtain ⟨-, -, ⟨hmem, -⟩ | hc'⟩ := h.deletes.endXid_eq hx (by rw [hc]; nofun) hop hr
    · rw [hdone] at hmem
      cases hmem
    · obtain rfl := Phase.committing.inj (hc.symm.trans hc')
      exact ⟨hpos, hlt⟩
  · rintro ⟨hpos, hlt⟩
    rcases h.deletes.stamped l r hr hpos with hmax | ⟨S, x, hx, hc, hop⟩
    · have hle : T ≤ db.currentTrxId := (h.deletes.marks.trx T y hy).le
      have : db.currentTrxId < maxTrxId := h.deletes.marks.lt
      omega
    · exact ⟨S, x, _, hx, hc, h.settled S T x y _ hx hc hy hactive hlt, hlt, hop⟩

/-- A running transaction's own INSERT has its mark. -/
theorem Snapshots.ownInsert_iff (h : Snapshots db.versions) {T : Int} {y : MvccTrx} {l : Loc}
    {r : Row D} (hy : db.trx T = some y) (hactive : y.phase = .active) (hr : db.row l = some r) :
    ⟨.insert, l⟩ ∈ y.operations ↔ r.beginXid = -T := by
  constructor
  · intro hop
    rcases h.inserts.insertedBy hy (by rw [hactive]; nofun) hop hr with ⟨-, hb⟩ | hc
    · exact hb
    · cases hactive.symm.trans hc
  · intro hb
    have hT := (h.deletes.marks.trx T y hy).pos
    obtain ⟨z, hz, hmem⟩ := h.deletes.marks.owner l r hr (by omega)
    rw [hb, Int.neg_neg] at hz
    obtain rfl := Option.some.inj (hy.symm.trans hz)
    exact h.deletes.sub T y _ hy hmem

/-- A running transaction's own DELETE has its mark. -/
theorem Snapshots.ownDelete_iff (h : Snapshots db.versions) {T : Int} {y : MvccTrx} {l : Loc}
    {r : Row D} (hy : db.trx T = some y) (hactive : y.phase = .active) (hr : db.row l = some r) :
    ⟨.delete, l⟩ ∈ y.operations ↔ r.endXid = -T := by
  constructor
  · intro hop
    obtain ⟨-, -, ⟨-, he⟩ | hc⟩ := h.deletes.endXid_eq hy (by rw [hactive]; nofun) hop hr
    · exact he
    · cases hactive.symm.trans hc
  · intro he
    have hT := (h.deletes.marks.trx T y hy).pos
    obtain ⟨z, hz, hmem⟩ := h.deletes.ended l r hr (by omega)
    rw [he, Int.neg_neg] at hz
    obtain rfl := Option.some.inj (hy.symm.trans hz)
    exact h.deletes.sub T y _ hy hmem

/-- Nothing committed or done at a place without a row. -/
theorem Snapshots.not_inSnapshot (h : Snapshots db.versions) {T : Int} {y : MvccTrx} {l : Loc}
    (hy : db.trx T = some y) (hactive : y.phase = .active) (hr : db.row l = none) :
    ¬ InSnapshot (DoneBefore db T) (· ∈ y.operations) l := by
  rintro (hop | ⟨⟨S, x, c, hx, hc, -, -, hop⟩, -⟩)
  · obtain ⟨r, hr', -⟩ := h.inserted T y l hy (by rw [hactive]; nofun) hop
    cases hr.symm.trans hr'
  · obtain ⟨r, hr', -⟩ := h.inserted S x l hx (by rw [hc]; nofun) hop
    cases hr.symm.trans hr'

/-- A row with hidden fields is visible if it is in the snapshot. -/
theorem Snapshots.visible_iff_inSnapshot (h : Snapshots db.versions) {T : Int} {y : MvccTrx} {l : Loc}
    {r : Row D} (hy : db.trx T = some y) (hactive : y.phase = .active) (hr : db.row l = some r)
    (hne : r.beginXid ≠ 0) : Visible T r ↔ InSnapshot (DoneBefore db T) (· ∈ y.operations) l := by
  have hne' : r.endXid ≠ 0 := fun he => hne ((h.deletes.unset l r hr).mpr he)
  have hT := (h.deletes.marks.trx T y hy).pos
  have holder : 0 < r.beginXid → r.endXid < 0 → T ≠ -r.endXid → r.beginXid < T :=
    fun hpos hneg => h.older l r hr hpos hneg T y hy hactive
  unfold InSnapshot
  dsimp only
  rw [h.insertedBefore_iff hy hactive hr, h.deletedBefore_iff hy hactive hr,
    h.ownInsert_iff hy hactive hr, h.ownDelete_iff hy hactive hr, visible_iff]
  omega

end Reads

/-! ## Transactions alone -/

/-- The action is a row of LOAD DATA or of CREATE TABLE .. AS SELECT. -/
def Action.loads : Action D U → Bool
  | .insertMadeRecord .. => true
  | _ => false

/-- The action is one of a transaction, not one behind its back. -/
def ThroughTrx : Action D U → Prop
  | .update .. => False
  | .insertMadeRecord .. => False
  | _ => True

/-- Rows without hidden fields are those of LOAD DATA and CREATE TABLE .. AS SELECT. -/
theorem begin_eq_zero_step {db : Database D U} {a : Action D U} {v' : Versions D}
    (hmarks : Marks db.versions) (hok : KeepsSnapshots db a) (hstep : RowStep db a v') {l : Loc}
    {r' : Row D} (hr' : v'.row l = some r') :
    r'.beginXid = 0 ↔ (∃ r, db.row l = some r ∧ r.beginXid = 0) ∨ (db.row l = none ∧ a.loads) := by
  -- a step that leaves the mark of the row as it is settles both sides alike
  have hsame : ∀ {r : Row D}, db.row l = some r → (r'.beginXid = 0 ↔ r.beginXid = 0) →
      (r'.beginXid = 0 ↔ (∃ r, db.row l = some r ∧ r.beginXid = 0) ∨ (db.row l = none ∧ a.loads)) := by
    intro r hr hiff
    rw [hiff]
    constructor
    · exact fun hb => Or.inl ⟨r, hr, hb⟩
    · rintro (⟨r₁, hr₁, hb⟩ | ⟨hnone, -⟩)
      · obtain rfl := Option.some.inj (hr.symm.trans hr₁)
        exact hb
      · cases hr.symm.trans hnone
  cases hstep with
  | start => exact hsame hr' Iff.rfl
  | @insert T x tid rid data p hx hphase hfree =>
    rcases Versions.setRow_some.mp hr' with ⟨rfl, hr₁⟩ | ⟨-, hr₁⟩
    · have hT := (hmarks.trx T x hx).pos
      obtain rfl := Option.some.inj hr₁
      refine iff_of_false (by show -T ≠ 0; omega) ?_
      rintro (⟨r, hr, -⟩ | ⟨-, hloads⟩)
      · cases hfree.symm.trans hr
      · cases hloads
    · exact hsame hr₁ Iff.rfl
  | @delete T x tid rid r hx hphase hr hw =>
    rcases Versions.setRow_some.mp hr' with ⟨rfl, hr₁⟩ | ⟨-, hr₁⟩
    · obtain rfl := Option.some.inj hr₁
      exact hsame hr Iff.rfl
    · exact hsame hr₁ Iff.rfl
  | commit => exact hsame hr' Iff.rfl
  | @commitOperation T c operations pending op r hx hr hxid =>
    rcases Versions.setRow_some.mp hr' with ⟨rfl, hr₁⟩ | ⟨-, hr₁⟩
    · have hT := (hmarks.trx T _ hx).pos
      have hc := (hmarks.trx T _ hx).commitPos c rfl
      obtain rfl := Option.some.inj hr₁
      obtain ⟨type, l⟩ := op
      refine hsame hr ?_
      cases type with
      -- the commit id is not 0, and neither was the mark before
      | insert =>
        replace hxid : r.beginXid = -T := hxid
        exact iff_of_false (by show c ≠ 0; omega) (by omega)
      | delete => exact Iff.rfl
    · exact hsame hr₁ Iff.rfl
  | rollback => exact hsame hr' Iff.rfl
  | undoInsert =>
    rcases Versions.setRow_some.mp hr' with ⟨rfl, hr₁⟩ | ⟨-, hr₁⟩
    · cases hr₁
    · exact hsame hr₁ Iff.rfl
  | @undoDelete T operations pending op r hx htype hr hend =>
    rcases Versions.setRow_some.mp hr' with ⟨rfl, hr₁⟩ | ⟨-, hr₁⟩
    · obtain rfl := Option.some.inj hr₁
      exact hsame hr Iff.rfl
    · exact hsame hr₁ Iff.rfl
  | update => exact hok.2.elim
  -- only loading makes a row that begins at 0
  | @made tid rid data p hfree =>
    rcases Versions.setRow_some.mp hr' with ⟨rfl, hr₁⟩ | ⟨-, hr₁⟩
    · obtain rfl := Option.some.inj hr₁
      exact iff_of_true rfl (Or.inr ⟨hfree, rfl⟩)
    · exact hsame hr₁ Iff.rfl
  | idle => exact hsame hr' Iff.rfl

/-- `KeepsSnapshots`, for runs of transactions alone. -/
def KeepsReads (db : Database D U) (a : Action D U) : Prop := KeepsSnapshots db a ∧ ThroughTrx a

/-- **Headline.**  In such runs, a running transaction sees what was committed before it started, and
    its own operations, and nothing else. -/
theorem snapshot_reads (db : Database D U) (h : Reachable Database.step KeepsReads .empty db) (T : Int)
    (x : MvccTrx) (hx : db.trx T = some x) (hactive : x.phase = .active) (l : Loc) :
    Sees db T l ↔ InSnapshot (DoneBefore db T) (· ∈ x.operations) l := by
  have hdb := snapshots_of_reachable (fun _ _ hok => hok.1) h
  have hne : ∀ l (r : Row D), db.row l = some r → r.beginXid ≠ 0 := by
    have hinit : ∀ l (r : Row D), (Database.empty : Database D U).row l = some r → r.beginXid ≠ 0 :=
      fun _ _ hr => nomatch hr
    refine (h.invariant (I := fun db => Snapshots db.versions ∧
      ∀ l (r : Row D), db.row l = some r → r.beginXid ≠ 0) ⟨Snapshots.empty, hinit⟩ ?_).2
    intro db a rc db' hinv hok hstep
    have hrow := Database.step_rowStep hstep
    refine ⟨hinv.1.step hok.1 hrow, fun l r hr hb => ?_⟩
    rcases (begin_eq_zero_step hinv.1.deletes.marks hok.1 hrow hr).mp hb with ⟨r₀, hr₀, hb₀⟩ | ⟨-, ha⟩
    · exact hinv.2 l r₀ hr₀ hb₀
    · cases a with
      | insertMadeRecord tid data p => exact hok.2.elim
      | _ => cases ha
  cases hr : db.row l with
  | none =>
    refine iff_of_false ?_ (hdb.not_inSnapshot hx hactive hr)
    rintro ⟨r, hr', -⟩
    cases hr.symm.trans hr'
  | some r =>
    rw [← hdb.visible_iff_inSnapshot hx hactive hr (hne l r hr)]
    constructor
    · rintro ⟨r', hr', hv⟩
      obtain rfl := Option.some.inj (hr.symm.trans hr')
      exact hv
    · exact fun hv => ⟨r, hr, hv⟩

/-- Transaction 3 after the commit of transaction 1. -/
theorem snapshot_reads_two : ∃ (db : Database Int Int) (x : MvccTrx) (l : Loc),
    Sees db 3 l ↔ InSnapshot (DoneBefore db 3) (· ∈ x.operations) l := by
  have h₀ : Reachable Database.step KeepsReads (.empty : Database Int Int) .empty := .init
  have h₁ := h₀.next (.createTable 0) ⟨⟨⟨trivial, trivial⟩, trivial⟩, trivial⟩ rfl
  have h₂ := h₁.next .start ⟨⟨⟨by show (0 : Int) + 1 < maxTrxId; decide, trivial⟩,
    by intro _ _ _ hx; cases hx⟩, trivial⟩ rfl
  have h₃ := h₂.next (.insertRecord 1 0 7 firstSlots) ⟨⟨⟨trivial, trivial⟩, trivial⟩, trivial⟩ rfl
  have h₄ := h₃.next (.commit 1)
    ⟨⟨⟨by show (1 : Int) + 1 < maxTrxId; decide, trivial⟩, trivial⟩, trivial⟩ rfl
  have h₅ := h₄.next (.commitOperation 1) ⟨⟨⟨trivial, trivial⟩, by
    intro x op pending r hx hp htype hr hneg
    obtain rfl := Option.some.inj hx
    obtain ⟨rfl, -⟩ := List.cons.inj hp
    obtain rfl := Option.some.inj hr
    exact absurd hneg (by decide)⟩, trivial⟩ rfl
  have h₆ := h₅.next .start ⟨⟨⟨by show (2 : Int) + 1 < maxTrxId; decide, trivial⟩, by
    intro S x c hx _
    have hS := (marks_of_reachable (fun _ _ hok => hok.1.1.1) h₅).trx S x hx
    have hle : S ≤ 2 := hS.le
    rcases show S = 1 ∨ S = 2 by have := hS.pos; omega with rfl | rfl
    · obtain rfl := Option.some.inj hx
      rfl
    · nomatch hx⟩, trivial⟩ rfl
  exact ⟨_, _, (0, ⟨⟨1, 0⟩, by decide, by decide⟩), snapshot_reads _ h₆ 3 _ rfl rfl _⟩

/-- Transaction 1 sees a row that was committed after it has started, while transaction 4 deletes
    it. -/
theorem pending_delete_shows_newer_row :
    ¬ ∀ db : Database Int Int, Reachable Database.step (fun db a => KeepsMarks db a ∧ ThroughTrx a)
      .empty db → ∀ T x, db.trx T = some x → x.phase = .active → ∀ l,
        Sees db T l ↔ InSnapshot (DoneBefore db T) (· ∈ x.operations) l := by
  intro h
  have h₀ : Reachable Database.step (fun db a => KeepsMarks db a ∧ ThroughTrx a)
    (.empty : Database Int Int) .empty := .init
  have h₁ := h₀.next (.createTable 0) ⟨trivial, trivial⟩ rfl
  have h₂ := h₁.next .start ⟨by show (0 : Int) + 1 < maxTrxId; decide, trivial⟩ rfl
  have h₃ := h₂.next .start ⟨by show (1 : Int) + 1 < maxTrxId; decide, trivial⟩ rfl
  have h₄ := h₃.next (.insertRecord 2 0 7 firstSlots) ⟨trivial, trivial⟩ rfl
  have h₅ := h₄.next (.commit 2) ⟨by show (2 : Int) + 1 < maxTrxId; decide, trivial⟩ rfl
  have h₆ := h₅.next (.commitOperation 2) ⟨trivial, trivial⟩ rfl
  have h₇ := h₆.next .start ⟨by show (3 : Int) + 1 < maxTrxId; decide, trivial⟩ rfl
  have h₈ := h₇.next (.deleteRecord 4 0 ⟨⟨1, 0⟩, by decide, by decide⟩) ⟨trivial, trivial⟩ rfl
  have hmarks := marks_of_reachable (fun _ _ hok => hok.1) h₈
  have hsees := h _ h₈ 1 _ rfl rfl (0, ⟨⟨1, 0⟩, by decide, by decide⟩)
  rcases hsees.mp ⟨⟨3, -4, 7⟩, rfl, by decide⟩ with hown | ⟨⟨S, x, c, hx, hc, -, hlt, -⟩, -⟩
  · exact absurd hown (by decide)
  · have := (hmarks.trx S x hx).commitPos c hc
    omega

end Miniob.Trx
