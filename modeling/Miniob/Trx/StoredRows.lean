/-
  Rows, whatever statement has stored them.

  LOAD DATA and CREATE TABLE .. AS SELECT hand the record of `Table::make_record` to the table, with
  zeros in the hidden fields.  `visit_record` shows such a row to everybody, before and after, and
  goes on doing so when it has been deleted: an end field alone is never looked at.

  When such a row was stored is not in the database, so that a `History` notes it beside.
-/
import Miniob.Trx.Snapshot

namespace Miniob.Trx

open Miniob.Common Miniob.Db Miniob.Storage

variable {D U : Type}

/-! ## Histories -/

/-- The database, and for each row that LOAD DATA or CREATE TABLE .. AS SELECT has stored, what the
    counter was then. -/
structure History (D U : Type) where
  db : Database D U
  loaded : Loc → Option Int

namespace History

def empty : History D U where
  db := .empty
  loaded _ := none

/-- `Database.step`; a row that was not there before the action is noted if the action loads it. -/
def step (h : History D U) (a : Action D U) : Except Fault (RC × History D U) := do
  let (rc, db) ← h.db.step a
  return (rc, { db, loaded := fun l =>
    if (db.row l).isNone then none
    else if (h.db.row l).isNone ∧ a.loads then some h.db.currentTrxId
    else h.loaded l })

end History

/-- `KeepsSnapshots`; no transaction deletes a row that it has inserted itself, and rows are loaded
    while no transaction runs. -/
def KeepsStored (h : History D U) (a : Action D U) : Prop :=
  KeepsSnapshots h.db a ∧ match a with
    | .deleteRecord T tid rid => ∀ r, h.db.row (tid, rid) = some r → Writable T r → 0 ≤ r.beginXid
    | .insertMadeRecord .. => ∀ S x, h.db.trx S = some x → x.phase ≠ .active
    | _ => True

/-- The rows that LOAD DATA has stored are known by their mark 0. -/
structure Stored (h : History D U) : Prop where
  snapshots : Snapshots h.db.versions
  /-- A row that is not committed has not been deleted. -/
  fresh : ∀ l r, h.db.row l = some r → r.beginXid < 0 → r.endXid = maxTrxId
  /-- A row was loaded exactly if it begins at 0. -/
  loaded : ∀ l, (∃ k, h.loaded l = some k) ↔ ∃ r, h.db.row l = some r ∧ r.beginXid = 0
  /-- It was loaded at an identifier that had been handed out. -/
  bound : ∀ l k, h.loaded l = some k → k ≤ h.db.currentTrxId
  /-- Every transaction that still runs began after that. -/
  before : ∀ l k T x, h.loaded l = some k → h.db.trx T = some x → x.phase = .active → k < T

/-! ## Every step keeps it -/

section Step

/-- A row that is not committed has just been inserted, or was there before with the same fields. -/
theorem fresh_step {h : History D U} {a : Action D U} {v' : Versions D} (hs : Stored h)
    (hok : KeepsStored h a) (hstep : RowStep h.db a v') {l : Loc} {r' : Row D}
    (hr' : v'.row l = some r') (hneg : r'.beginXid < 0) : r'.endXid = maxTrxId := by
  have hmarks := hs.snapshots.deletes.marks
  -- a row that is not committed yet has only been inserted, so it is marked in no other way
  cases hstep with
  | start => exact hs.fresh l r' hr' hneg
  | insert =>
    rcases Versions.setRow_some.mp hr' with ⟨rfl, hr₁⟩ | ⟨-, hr₁⟩
    · obtain rfl := Option.some.inj hr₁
      rfl
    · exact hs.fresh l r' hr₁ hneg
  | @delete T x tid rid r hx hphase hr hw =>
    rcases Versions.setRow_some.mp hr' with ⟨rfl, hr₁⟩ | ⟨-, hr₁⟩
    · obtain rfl := Option.some.inj hr₁
      have := hok.2 r hr hw
      exact absurd hneg (by show ¬ r.beginXid < 0; omega)
    · exact hs.fresh l r' hr₁ hneg
  | commit => exact hs.fresh l r' hr' hneg
  | @commitOperation T c operations pending op r hx hr hxid =>
    rcases Versions.setRow_some.mp hr' with ⟨rfl, hr₁⟩ | ⟨-, hr₁⟩
    · have hT := (hmarks.trx T _ hx).pos
      have hc := (hmarks.trx T _ hx).commitPos c rfl
      obtain rfl := Option.some.inj hr₁
      obtain ⟨type, l⟩ := op
      cases type with
      | insert => exact absurd hneg (by show ¬ c < 0; omega)
      | delete =>
        replace hxid : r.endXid = -T := hxid
        have hmax := hs.fresh l r hr hneg
        unfold maxTrxId at hmax
        omega
    · exact hs.fresh l r' hr₁ hneg
  | rollback => exact hs.fresh l r' hr' hneg
  | undoInsert =>
    rcases Versions.setRow_some.mp hr' with ⟨rfl, hr₁⟩ | ⟨-, hr₁⟩
    · cases hr₁
    · exact hs.fresh l r' hr₁ hneg
  | undoDelete =>
    rcases Versions.setRow_some.mp hr' with ⟨rfl, hr₁⟩ | ⟨-, hr₁⟩
    · obtain rfl := Option.some.inj hr₁
      rfl
    · exact hs.fresh l r' hr₁ hneg
  | update => exact hok.1.2.elim
  | made =>
    rcases Versions.setRow_some.mp hr' with ⟨rfl, hr₁⟩ | ⟨-, hr₁⟩
    · obtain rfl := Option.some.inj hr₁
      exact absurd hneg (by show ¬ (0 : Int) < 0; decide)
    · exact hs.fresh l r' hr₁ hneg
  | idle => exact hs.fresh l r' hr' hneg

theorem Stored.empty : Stored (History.empty : History D U) where
  snapshots := Snapshots.empty
  fresh _ _ hr := nomatch hr
  loaded l := by
    constructor
    · rintro ⟨k, hk⟩
      cases hk
    · rintro ⟨r, hr, -⟩
      cases hr
  bound _ _ hk := nomatch hk
  before _ _ _ _ hk := nomatch hk

/-- **Step.** -/
theorem Stored.step {h h' : History D U} {a : Action D U} {rc : RC} (hs : Stored h)
    (hok : KeepsStored h a) (hstep : h.step a = .ok (rc, h')) : Stored h' := by
  unfold History.step at hstep
  obtain ⟨⟨rc', db'⟩, hdb, hstep⟩ := ok_of_bind hstep
  obtain ⟨-, rfl⟩ := Prod.mk.inj (Except.ok.inj hstep)
  have hrow := Database.step_rowStep hdb
  have hmarks := hs.snapshots.deletes.marks
  have hcounts := hok.1.1.1.countsUp
  have hle := (trx_step hmarks.nonneg hcounts hrow).1
  -- a note is a new one or an old one
  have hnote : ∀ l k, (if (db'.row l).isNone then none
      else if (h.db.row l).isNone ∧ a.loads then some h.db.currentTrxId else h.loaded l) = some k →
      (k = h.db.currentTrxId ∧ a.loads) ∨ h.loaded l = some k := by
    intro l k hk
    split at hk
    · cases hk
    · split at hk
      · rename_i hnew
        exact Or.inl ⟨(Option.some.inj hk).symm, hnew.2⟩
      · exact Or.inr hk
  refine ⟨hs.snapshots.step hok.1 hrow, fun l r hr => fresh_step hs hok hrow hr, ?_, ?_, ?_⟩
  · intro l
    dsimp only
    cases hr' : db'.row l with
    | none =>
      refine iff_of_false ?_ ?_
      · rintro ⟨k, hk⟩
        cases hk
      · rintro ⟨r, hr, -⟩
        cases hr
    | some r' =>
      have hiff := begin_eq_zero_step hmarks hok.1 hrow hr'
      rw [if_neg (by simp)]
      constructor
      · rintro ⟨k, hk⟩
        refine ⟨r', rfl, hiff.mpr ?_⟩
        split at hk
        · rename_i hnew
          exact Or.inr ⟨Option.isNone_iff_eq_none.mp hnew.1, hnew.2⟩
        · exact Or.inl ((hs.loaded l).mp ⟨k, hk⟩)
      · rintro ⟨r, hr, hb⟩
        obtain rfl := Option.some.inj hr
        rcases hiff.mp hb with ⟨r₀, hr₀, hb₀⟩ | ⟨hnone, ha⟩
        · obtain ⟨k, hk⟩ := (hs.loaded l).mpr ⟨r₀, hr₀, hb₀⟩
          refine ⟨k, ?_⟩
          rw [if_neg (by simp [hr₀])]
          exact hk
        · exact ⟨_, if_pos ⟨Option.isNone_iff_eq_none.mpr hnone, ha⟩⟩
  · intro l k hk
    refine Int.le_trans ?_ hle
    rcases hnote l k hk with ⟨rfl, -⟩ | hk
    · exact Int.le_refl _
    · exact hs.bound l k hk
  · intro l k T x hk hx hp
    have hbound : k ≤ h.db.currentTrxId := by
      rcases hnote l k hk with ⟨rfl, -⟩ | hk
      · exact Int.le_refl _
      · exact hs.bound l k hk
    rcases active_step hmarks.nonneg hcounts hrow hx hp with ⟨x₀, hx₀, hp₀⟩ | ⟨-, hlt⟩
    · rcases hnote l k hk with ⟨rfl, ha⟩ | hk
      · cases a with
        | insertMadeRecord tid data p => exact absurd hp₀ (hok.2 T x₀ hx₀)
        | _ => cases ha
      · exact hs.before l k T x₀ hk hx₀ hp₀
    · omega

end Step

/-! ## Visibility -/

/-- The row at `l` is visible to `T` if the statement that has stored it is one of `T`, or was committed
    before `T` started, and no DELETE of `T`, or committed before, has removed it. -/
def RowVisible (h : History D U) (T : Int) (x : MvccTrx) (l : Loc) : Prop :=
  Sees h.db T l ↔
    (⟨.insert, l⟩ ∈ x.operations ∨ DoneBefore h.db T ⟨.insert, l⟩ ∨
      ∃ k, h.loaded l = some k ∧ k < T) ∧
    ⟨.delete, l⟩ ∉ x.operations ∧ ¬ DoneBefore h.db T ⟨.delete, l⟩

theorem Stored.rowVisible {h : History D U} (hs : Stored h) {T : Int} {x : MvccTrx} {l : Loc}
    (hx : h.db.trx T = some x) (hactive : x.phase = .active) : RowVisible h T x l := by
  have hsn := hs.snapshots
  unfold RowVisible
  cases hr : h.db.row l with
  | none =>
    refine iff_of_false ?_ ?_
    · rintro ⟨r, hr', -⟩
      cases hr.symm.trans hr'
    · rintro ⟨hop | ⟨S, y, c, hy, hc, -, -, hop⟩ | ⟨k, hk, -⟩, -⟩
      · obtain ⟨r, hr', -⟩ := hsn.inserted T x l hx (by rw [hactive]; nofun) hop
        cases hr.symm.trans hr'
      · obtain ⟨r, hr', -⟩ := hsn.inserted S y l hy (by rw [hc]; nofun) hop
        cases hr.symm.trans hr'
      · obtain ⟨r, hr', -⟩ := (hs.loaded l).mp ⟨k, hk⟩
        cases hr.symm.trans hr'
  | some r =>
    have hsees : Sees h.db T l ↔ Visible T r := by
      constructor
      · rintro ⟨r', hr', hv⟩
        obtain rfl := Option.some.inj (hr.symm.trans hr')
        exact hv
      · exact fun hv => ⟨r, hr, hv⟩
    have hT := (hsn.deletes.marks.trx T x hx).pos
    have hloaded : (∃ k, h.loaded l = some k ∧ k < T) ↔ r.beginXid = 0 := by
      constructor
      · rintro ⟨k, hk, -⟩
        obtain ⟨r', hr', hb⟩ := (hs.loaded l).mp ⟨k, hk⟩
        obtain rfl := Option.some.inj (hr.symm.trans hr')
        exact hb
      · intro hb
        obtain ⟨k, hk⟩ := (hs.loaded l).mpr ⟨r, hr, hb⟩
        exact ⟨k, hk, hs.before l k T x hk hx hactive⟩
    have hunset := hsn.deletes.unset l r hr
    have hfresh := hs.fresh l r hr
    have hle : T ≤ h.db.currentTrxId := (hsn.deletes.marks.trx T x hx).le
    have hlt : h.db.currentTrxId < maxTrxId := hsn.deletes.marks.lt
    have holder : 0 < r.beginXid → r.endXid < 0 → T ≠ -r.endXid → r.beginXid < T :=
      fun hpos hneg => hsn.older l r hr hpos hneg T x hx hactive
    rw [hsees, hloaded, hsn.ownInsert_iff hx hactive hr, hsn.insertedBefore_iff hx hactive hr,
      hsn.ownDelete_iff hx hactive hr, hsn.deletedBefore_iff hx hactive hr, visible_iff]
    omega

/-- **Headline.**  In runs that meet `KeepsStored`, every row is visible to a running transaction exactly
    as the statements that have stored and deleted it say. -/
theorem stored_rows_visible (h : History D U) (hreach : Reachable History.step KeepsStored .empty h)
    (T : Int) (x : MvccTrx) (hx : h.db.trx T = some x) (hactive : x.phase = .active) (l : Loc) :
    RowVisible h T x l := by
  have hs : Stored h := hreach.invariant (I := Stored) Stored.empty
    fun _ _ _ _ hs hok hstep => hs.step hok hstep
  exact hs.rowVisible hx hactive

/-- A row is loaded before transaction 1 starts. -/
theorem stored_rows_visible_loaded : ∃ (h : History Int Int) (x : MvccTrx) (l : Loc),
    RowVisible h 1 x l := by
  have h₀ : Reachable History.step KeepsStored (.empty : History Int Int) .empty := .init
  have h₁ := h₀.next (.createTable 0) ⟨⟨⟨trivial, trivial⟩, trivial⟩, trivial⟩ rfl
  have h₂ := h₁.next (.insertMadeRecord 0 7 firstSlots)
    ⟨⟨⟨trivial, trivial⟩, trivial⟩, by intro _ _ hx; cases hx⟩ rfl
  have h₃ := h₂.next .start ⟨⟨⟨by show (0 : Int) + 1 < maxTrxId; decide, trivial⟩,
    by intro _ _ _ hx; cases hx⟩, trivial⟩ rfl
  exact ⟨_, _, (0, ⟨⟨1, 0⟩, by decide, by decide⟩), stored_rows_visible _ h₃ 1 _ rfl rfl _⟩

/-- A loaded row is deleted, and the DELETE is committed: transaction 3 still sees it. -/
theorem loaded_row_outlives_delete :
    ¬ ∀ h : History Int Int,
      Reachable History.step (fun h a => KeepsMarks h.db a ∧ WithoutUpdate a) .empty h →
      ∀ T x, h.db.trx T = some x → x.phase = .active → ∀ l, RowVisible h T x l := by
  intro h
  have h₀ : Reachable History.step (fun h a => KeepsMarks h.db a ∧ WithoutUpdate a)
    (.empty : History Int Int) .empty := .init
  have h₁ := h₀.next (.createTable 0) ⟨trivial, trivial⟩ rfl
  have h₂ := h₁.next (.insertMadeRecord 0 7 firstSlots) ⟨trivial, trivial⟩ rfl
  have h₃ := h₂.next .start ⟨by show (0 : Int) + 1 < maxTrxId; decide, trivial⟩ rfl
  have h₄ := h₃.next (.deleteRecord 1 0 ⟨⟨1, 0⟩, by decide, by decide⟩) ⟨trivial, trivial⟩ rfl
  have h₅ := h₄.next (.commit 1) ⟨by show (1 : Int) + 1 < maxTrxId; decide, trivial⟩ rfl
  have h₆ := h₅.next (.commitOperation 1) ⟨trivial, trivial⟩ rfl
  have h₇ := h₆.next .start ⟨by show (2 : Int) + 1 < maxTrxId; decide, trivial⟩ rfl
  have hvisible := h _ h₇ 3 _ rfl rfl (0, ⟨⟨1, 0⟩, by decide, by decide⟩)
  refine (hvisible.mp ⟨⟨0, 2, 7⟩, rfl, by decide⟩).2.2 ?_
  exact ⟨1, _, 2, rfl, rfl, rfl, by decide, by decide⟩

end Miniob.Trx
