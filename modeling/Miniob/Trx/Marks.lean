/-
  The marks of unfinished transactions.

  While an operation is pending, the hidden field it is about holds minus the identifier of its
  transaction, and a negative begin field always belongs to a pending INSERT.  `Marks` says so;
  every step keeps it as long as the transaction counter stays below the identifier that stands
  for "never", and no UPDATE statement takes up a row that its own transaction has inserted.
-/
import Miniob.Trx.Versions

namespace Miniob.Trx

open Miniob.Common Miniob.Db Miniob.Storage

variable {D U : Type}

/-! ## The invariant -/

/-- What holds of one transaction. -/
structure TrxOk (currentTrxId T : Int) (x : MvccTrx) : Prop where
  pos : 0 < T
  le : T ≤ currentTrxId
  commitPos : ∀ c, x.phase = .committing c → 0 < c
  commitLe : ∀ c, x.phase = .committing c → c ≤ currentTrxId
  /-- A running transaction has committed nothing yet. -/
  active : x.phase = .active → x.pending = x.operations
  /-- No place is inserted into twice. -/
  once : x.pending.Pairwise fun a b => a = b → a.type = .delete

/-- What the marks in the rows say about the transactions that run. -/
structure Marks (v : Versions D) : Prop where
  nonneg : 0 ≤ v.currentTrxId
  lt : v.currentTrxId < maxTrxId
  trx : ∀ T x, v.trx T = some x → TrxOk v.currentTrxId T x
  /-- Pending inserts, and the deletes of running transactions, have their mark. -/
  marked : ∀ T x op, v.trx T = some x → op ∈ x.pending → op.type = .insert ∨ x.phase = .active →
    ∃ r, v.row op.loc = some r ∧ op.xid r = -T
  /-- A negative begin field belongs to a pending INSERT. -/
  owner : ∀ l r, v.row l = some r → r.beginXid < 0 →
    ∃ x, v.trx (-r.beginXid) = some x ∧ ⟨.insert, l⟩ ∈ x.pending
  /-- Only the transaction that has inserted a row can have deleted it before it commits. -/
  both : ∀ l r, v.row l = some r → r.beginXid < 0 → r.endXid < 0 → r.endXid = r.beginXid

/-- The counter does not reach the identifier that stands for "never", and UPDATE statements leave
    the rows alone that their own transaction has inserted. -/
def KeepsMarks (db : Database D U) : Action D U → Prop
  | .start => db.currentTrxId + 1 < maxTrxId
  | .commit _ => db.currentTrxId + 1 < maxTrxId
  | .update T tid stmt _ => ∀ l r, db.UpdateSelects T tid stmt l r → r.beginXid ≠ -T
  | _ => True

/-- There are no rows. -/
theorem Marks.empty : Marks (Database.empty : Database D U).versions where
  nonneg := Int.le_refl 0
  lt := by
    show (0 : Int) < maxTrxId
    decide
  trx _ _ h := nomatch h
  marked _ _ _ h := nomatch h
  owner _ _ h := nomatch h
  both _ _ h := nomatch h

theorem KeepsMarks.countsUp {db : Database D U} {a : Action D U} (h : KeepsMarks db a) :
    CountsUp db a := by
  cases a with
  | start => exact h
  | commit T => exact h
  | _ => trivial

/-! ## Every step keeps it -/

section Step

variable {db : Database D U}

/-- A transaction is still in order when the counter grows. -/
theorem TrxOk.mono {c c' T : Int} {x : MvccTrx} (h : TrxOk c T x) (hle : c ≤ c') : TrxOk c' T x :=
  { h with
    le := Int.le_trans h.le hle
    commitLe := fun k hk => Int.le_trans (h.commitLe k hk) hle }

/-- The first pending operation has been worked off. -/
theorem TrxOk.tail {c T : Int} {operations pending : List Operation} {op : Operation}
    {phase : Phase} (h : TrxOk c T ⟨operations, op :: pending, phase⟩) (hphase : phase ≠ .active) :
    TrxOk c T ⟨operations, pending, phase⟩ :=
  { h with
    active := fun ha => absurd ha hphase
    once := (List.pairwise_cons.mp h.once).2 }

/-- An INSERT that is worked off is not pending any more. -/
theorem TrxOk.not_mem_tail {c T : Int} {operations pending : List Operation} {op : Operation}
    {phase : Phase} (h : TrxOk c T ⟨operations, op :: pending, phase⟩) (hop : op.type = .insert) :
    op ∉ pending := by
  intro hmem
  have := (List.pairwise_cons.mp h.once).1 op hmem rfl
  rw [hop] at this
  cases this

/-- A row that UPDATE may take up carries no mark. -/
theorem unmarked_of_selected {T : Int} {r : Row D} (hw : Writable T r) (hne : r.beginXid ≠ -T) :
    0 ≤ r.beginXid ∧ 0 ≤ r.endXid := by
  rcases writable_iff.mp hw with ⟨h1, h2, -⟩ | ⟨-, h⟩ | ⟨h1, h2, -⟩
  · exact ⟨Int.le_of_lt h1, Int.le_of_lt h2⟩
  · exact absurd (by omega) hne
  · exact ⟨h1, h2⟩

/-- A new transaction has marked nothing. -/
theorem Marks.start (h : Marks db.versions) (hok : db.currentTrxId + 1 < maxTrxId) :
    Marks ({ db.versions with currentTrxId := nextTrxId db.currentTrxId }.setTrx
      (nextTrxId db.currentTrxId) { operations := [], pending := [], phase := .active }) := by
  have hnonneg : 0 ≤ db.currentTrxId := h.nonneg
  rw [nextTrxId_eq hnonneg hok]
  have hold : ∀ S y, db.trx S = some y → S ≠ db.currentTrxId + 1 := fun S y hy heq => by
    have := (h.trx S y hy).le
    rw [heq] at this
    exact absurd this (by show ¬ db.currentTrxId + 1 ≤ db.currentTrxId; omega)
  refine ⟨?_, hok, ?_, ?_, ?_, h.both⟩
  · show 0 ≤ db.currentTrxId + 1
    omega
  · intro S y hy
    rcases Versions.setTrx_some.mp hy with ⟨rfl, rfl⟩ | ⟨-, hy⟩
    · exact ⟨by omega, Int.le_refl _, nofun, nofun, fun _ => rfl, .nil⟩
    · exact (h.trx S y hy).mono (by show db.currentTrxId ≤ db.currentTrxId + 1; omega)
  · intro S y op hy hop hor
    rcases Versions.setTrx_some.mp hy with ⟨rfl, rfl⟩ | ⟨-, hy⟩
    · cases hop
    · exact h.marked S y op hy hop hor
  · intro l r hr hneg
    obtain ⟨x, hx, hmem⟩ := h.owner l r hr hneg
    exact ⟨x, Versions.setTrx_some.mpr (Or.inr ⟨hold _ x hx, hx⟩), hmem⟩

/-- One transaction changes, and the row at one place. -/
theorem Marks.change (h : Marks db.versions) {T : Int} {x x' : MvccTrx} {l : Loc}
    {r' : Option (Row D)} (hx : db.trx T = some x) (hok : TrxOk db.currentTrxId T x')
    (hown : ∀ op ∈ x'.pending, op.type = .insert ∨ x'.phase = .active →
      ∃ r, (if op.loc = l then r' else db.row op.loc) = some r ∧ op.xid r = -T)
    (hothers : ∀ S y op r, S ≠ T → db.trx S = some y → op ∈ y.pending →
      op.type = .insert ∨ y.phase = .active → op.loc = l → db.row l = some r → op.xid r = -S →
      ∃ r₁, r' = some r₁ ∧ op.xid r₁ = -S)
    (howner : ∀ r, r' = some r → r.beginXid < 0 →
      (-r.beginXid = T ∧ ⟨.insert, l⟩ ∈ x'.pending) ∨ ∃ r₀, db.row l = some r₀ ∧
        r₀.beginXid = r.beginXid ∧ (⟨.insert, l⟩ ∈ x.pending → ⟨.insert, l⟩ ∈ x'.pending))
    (hkept : ∀ l' ≠ l, ⟨.insert, l'⟩ ∈ x.pending → ⟨.insert, l'⟩ ∈ x'.pending)
    (hboth : ∀ r, r' = some r → r.beginXid < 0 → r.endXid < 0 → r.endXid = r.beginXid) :
    Marks ((db.versions.setRow l r').setTrx T x') := by
  -- the owner of a mark is still its owner
  have howned : ∀ l' r₀, db.row l' = some r₀ → r₀.beginXid < 0 →
      (⟨.insert, l'⟩ ∈ x.pending → ⟨.insert, l'⟩ ∈ x'.pending) →
      ∃ y, ((db.versions.setRow l r').setTrx T x').trx (-r₀.beginXid) = some y ∧
        ⟨.insert, l'⟩ ∈ y.pending := by
    intro l' r₀ hr₀ hneg hmono
    obtain ⟨y, hy, hmem⟩ := h.owner l' r₀ hr₀ hneg
    by_cases hS : -r₀.beginXid = T
    · rw [hS] at hy ⊢
      obtain rfl := Option.some.inj (hx.symm.trans hy)
      exact ⟨x', Versions.setTrx_some.mpr (Or.inl ⟨rfl, rfl⟩), hmono hmem⟩
    · exact ⟨y, Versions.setTrx_some.mpr (Or.inr ⟨hS, hy⟩), hmem⟩
  refine ⟨h.nonneg, h.lt, ?_, ?_, ?_, ?_⟩
  · intro S y hy
    rcases Versions.setTrx_some.mp hy with ⟨rfl, rfl⟩ | ⟨-, hy'⟩
    · exact hok
    · exact h.trx S y hy'
  · intro S y op hy hop hor
    rcases Versions.setTrx_some.mp hy with ⟨rfl, rfl⟩ | ⟨hS, hy'⟩
    · exact hown op hop hor
    · obtain ⟨r, hr, hxid⟩ := h.marked S y op hy' hop hor
      by_cases hl : op.loc = l
      · rw [hl] at hr
        obtain ⟨r₁, hr₁, hxid₁⟩ := hothers S y op r hS hy' hop hor hl hr hxid
        exact ⟨r₁, Versions.setRow_some.mpr (Or.inl ⟨hl, hr₁⟩), hxid₁⟩
      · exact ⟨r, Versions.setRow_some.mpr (Or.inr ⟨hl, hr⟩), hxid⟩
  · intro l' r hr hneg
    rcases Versions.setRow_some.mp hr with ⟨rfl, hr'⟩ | ⟨hl, hr'⟩
    · rcases howner r hr' hneg with ⟨hT, hmem⟩ | ⟨r₀, hr₀, hbegin, hmono⟩
      · exact ⟨x', Versions.setTrx_some.mpr (Or.inl ⟨hT, rfl⟩), hmem⟩
      · rw [← hbegin] at hneg ⊢
        exact howned l' r₀ hr₀ hneg hmono
    · exact howned l' r hr' hneg (hkept l' hl)
  · intro l' r hr hb he
    rcases Versions.setRow_some.mp hr with ⟨rfl, hr'⟩ | ⟨-, hr'⟩
    · exact hboth r hr' hb he
    · exact h.both l' r hr' hb he

/-- A pushed operation. -/
theorem TrxOk.push {c T : Int} {x : MvccTrx} (h : TrxOk c T x) {op : Operation}
    (hop : op.type = .insert → op ∉ x.pending) : TrxOk c T (x.push op) :=
  { h with
    active := fun ha => by
      show x.pending ++ _ = x.operations ++ _
      rw [h.active ha]
    once := by
      refine List.pairwise_append.mpr ⟨h.once, List.pairwise_singleton .., ?_⟩
      intro a ha b hb hab
      obtain rfl := List.mem_singleton.mp hb
      subst hab
      cases htype : a.type with
      | insert => exact absurd ha (hop htype)
      | delete => rfl }

/-- The row is marked, and the operation noted. -/
theorem Marks.insert (h : Marks db.versions) {T : Int} {x : MvccTrx} {l : Loc} {data : D}
    (hx : db.trx T = some x) (hphase : x.phase = .active) (hfree : db.row l = none) :
    Marks ((db.versions.setRow l (some ⟨-T, maxTrxId, data⟩)).setTrx T (x.push ⟨.insert, l⟩)) := by
  have hnot : ∀ op ∈ x.pending, op.loc ≠ l := fun op hop heq => by
    obtain ⟨r, hr, -⟩ := h.marked T x op hx hop (Or.inr hphase)
    rw [heq] at hr
    cases hfree.symm.trans hr
  refine h.change hx ((h.trx T x hx).push fun _ hmem => hnot _ hmem rfl) ?_ ?_ ?_ ?_ ?_
  · intro op hop _
    rcases List.mem_append.mp hop with hop | hop
    · rw [if_neg (hnot op hop)]
      exact h.marked T x op hx hop (Or.inr hphase)
    · obtain rfl := List.mem_singleton.mp hop
      exact ⟨_, if_pos rfl, rfl⟩
  · intro S y op r _ _ _ _ _ hr
    cases hfree.symm.trans hr
  · intro r hr _
    obtain rfl := Option.some.inj hr
    exact Or.inl ⟨by show - -T = T; omega, List.mem_append_right _ (by simp)⟩
  · exact fun l' _ hmem => List.mem_append_left _ hmem
  · intro r hr _ he
    obtain rfl := Option.some.inj hr
    exact absurd he (by show ¬ maxTrxId < 0; decide)

/-- Two operations on one hidden field of one row have the same owner. -/
theorem Operation.xid_eq {op op' : Operation} {r : Row D} {S T : Int} (htype : op.type = op'.type)
    (h : op.xid r = -S) (h' : op'.xid r = -T) : S = T := by
  have : op.xid r = op'.xid r := by
    unfold Operation.xid
    rw [htype]
  omega

theorem Operation.xid_insert {op : Operation} (h : op.type = .insert) (r : Row D) :
    op.xid r = r.beginXid := by
  unfold Operation.xid
  rw [h]

theorem Operation.xid_delete {op : Operation} (h : op.type = .delete) (r : Row D) :
    op.xid r = r.endXid := by
  unfold Operation.xid
  rw [h]

/-- So it is for a deletion. -/
theorem Marks.delete (h : Marks db.versions) {T : Int} {x : MvccTrx} {l : Loc} {r : Row D}
    (hx : db.trx T = some x) (hphase : x.phase = .active) (hr : db.row l = some r)
    (hw : Writable T r) :
    Marks ((db.versions.setRow l (some { r with endXid := -T })).setTrx T
      (x.push ⟨.delete, l⟩)) := by
  -- the end field carries no mark of another transaction
  have hend : ∀ S, 0 < S → r.endXid = -S → S = T := by
    intro S hS he
    rcases writable_iff.mp hw with ⟨-, h2, -⟩ | ⟨h1, h2⟩ | ⟨-, h2, -⟩
    · omega
    · have := h.both l r hr h1 (by omega)
      omega
    · omega
  have hold : ∀ S y op, db.trx S = some y → op ∈ y.pending → op.type = .insert ∨ y.phase = .active →
      op.loc = l → op.xid ({ r with endXid := -T } : Row D) = -S := by
    intro S y op hy hop hor hl
    obtain ⟨r₁, hr₁, hxid⟩ := h.marked S y op hy hop hor
    rw [hl] at hr₁
    obtain rfl := Option.some.inj (hr.symm.trans hr₁)
    cases htype : op.type with
    | insert =>
      rw [Operation.xid_insert htype] at hxid ⊢
      exact hxid
    | delete =>
      rw [Operation.xid_delete htype] at hxid ⊢
      rw [hend S (h.trx S y hy).pos hxid]
  refine h.change hx ((h.trx T x hx).push nofun) ?_ ?_ ?_ ?_ ?_
  · intro op hop _
    rcases List.mem_append.mp hop with hop | hop
    · by_cases hl : op.loc = l
      · exact ⟨_, if_pos hl, hold T x op hx hop (Or.inr hphase) hl⟩
      · rw [if_neg hl]
        exact h.marked T x op hx hop (Or.inr hphase)
    · obtain rfl := List.mem_singleton.mp hop
      exact ⟨_, if_pos rfl, rfl⟩
  · exact fun S y op _ _ hy hop hor hl _ _ => ⟨_, rfl, hold S y op hy hop hor hl⟩
  · intro r' hr' _
    obtain rfl := Option.some.inj hr'
    exact Or.inr ⟨r, hr, rfl, fun hmem => List.mem_append_left _ hmem⟩
  · exact fun l' _ hmem => List.mem_append_left _ hmem
  · intro r' hr' hb _
    obtain rfl := Option.some.inj hr'
    dsimp only at hb ⊢
    rcases writable_iff.mp hw with ⟨h1, -⟩ | ⟨-, h2⟩ | ⟨h1, -⟩ <;> omega

/-- The phase of a transaction changes, and with it the order of its pending operations. -/
theorem Marks.turn (h : Marks db.versions) {T c : Int} {x x' : MvccTrx} (hx : db.trx T = some x)
    (hc : db.currentTrxId ≤ c) (hlt : c < maxTrxId) (hok : TrxOk c T x')
    (hactive : x.phase = .active) (hpending : ∀ op, op ∈ x'.pending ↔ op ∈ x.pending) :
    Marks ({ db.versions with currentTrxId := c }.setTrx T x') := by
  refine ⟨Int.le_trans h.nonneg hc, hlt, ?_, ?_, ?_, h.both⟩
  · intro S y hy
    rcases Versions.setTrx_some.mp hy with ⟨rfl, rfl⟩ | ⟨-, hy'⟩
    · exact hok
    · exact (h.trx S y hy').mono hc
  · intro S y op hy hop hor
    rcases Versions.setTrx_some.mp hy with ⟨rfl, rfl⟩ | ⟨-, hy'⟩
    · exact h.marked S x op hx ((hpending op).mp hop) (Or.inr hactive)
    · exact h.marked S y op hy' hop hor
  · intro l r hr hneg
    obtain ⟨y, hy, hmem⟩ := h.owner l r hr hneg
    by_cases hS : -r.beginXid = T
    · rw [hS] at hy ⊢
      obtain rfl := Option.some.inj (hx.symm.trans hy)
      exact ⟨x', Versions.setTrx_some.mpr (Or.inl ⟨rfl, rfl⟩), (hpending _).mpr hmem⟩
    · exact ⟨y, Versions.setTrx_some.mpr (Or.inr ⟨hS, hy⟩), hmem⟩

/-- The first pending operation is worked off: its mark is replaced by `c`, or its row is gone. -/
theorem Marks.workOff (h : Marks db.versions) {T : Int} {operations pending : List Operation}
    {op : Operation} {phase : Phase} {r : Row D} {r' : Option (Row D)}
    (hx : db.trx T = some ⟨operations, op :: pending, phase⟩) (hphase : phase ≠ .active)
    (hr : db.row op.loc = some r) (hxid : op.xid r = -T)
    (hr' : (∃ c, 0 < c ∧ r' = some (op.setXid c r)) ∨ op.type = .insert ∧ r' = none) :
    Marks ((db.versions.setRow op.loc r').setTrx T ⟨operations, pending, phase⟩) := by
  have hxok := h.trx T _ hx
  -- another mark in the same row is in the other field, and the row stays
  have hother : ∀ S y op', db.trx S = some y → op' ∈ y.pending →
      op'.type = .insert ∨ y.phase = .active → op'.loc = op.loc →
      (S = T → op' ∈ pending) → ∃ r₁, r' = some r₁ ∧ op'.xid r₁ = -S := by
    intro S y op' hy hop hor hl hST
    obtain ⟨r₁, hr₁, hxid'⟩ := h.marked S y op' hy hop hor
    rw [hl] at hr₁
    obtain rfl := Option.some.inj (hr.symm.trans hr₁)
    by_cases htype : op'.type = op.type
    · obtain rfl := Operation.xid_eq htype hxid' hxid
      obtain rfl := Option.some.inj (hx.symm.trans hy)
      have heq : op' = op := Operation.ext' htype hl
      rcases hor with hins | hact
      · exact absurd (hST rfl) (heq ▸ hxok.not_mem_tail (heq ▸ hins))
      · exact absurd hact hphase
    · rcases hr' with ⟨c, -, rfl⟩ | ⟨hins, rfl⟩
      · exact ⟨_, rfl, by rw [Operation.xid_setXid_of_ne htype]; exact hxid'⟩
      · -- the row was inserted by T, so a pending delete of it is T's as well
        have hdel : op'.type = .delete := by
          cases hop' : op'.type with
          | insert => exact absurd (hop'.trans hins.symm) htype
          | delete => rfl
        rw [Operation.xid_insert hins] at hxid
        rw [Operation.xid_delete hdel] at hxid'
        have hS := (h.trx S y hy).pos
        have hT := hxok.pos
        have hboth := h.both op.loc r hr (by omega) (by omega)
        obtain rfl : S = T := by omega
        obtain rfl := Option.some.inj (hx.symm.trans hy)
        rcases hor with hins' | hact
        · rw [hdel] at hins'
          cases hins'
        · exact absurd hact hphase
  refine h.change hx (hxok.tail hphase) ?_ ?_ ?_ ?_ ?_
  · intro op' hop hor
    by_cases hl : op'.loc = op.loc
    · rw [if_pos hl]
      exact hother T _ op' hx (List.mem_cons_of_mem op hop) hor hl fun _ => hop
    · rw [if_neg hl]
      exact h.marked T _ op' hx (List.mem_cons_of_mem op hop) hor
  · exact fun S y op' _ hS hy hop hor hl _ _ => hother S y op' hy hop hor hl fun hST => absurd hST hS
  · intro r₁ hr₁ hneg
    rcases hr' with ⟨c, hc, rfl⟩ | ⟨-, rfl⟩
    · obtain rfl := Option.some.inj hr₁
      obtain ⟨type, l⟩ := op
      cases type with
      | insert => exact absurd hneg (by show ¬ c < 0; omega)
      | delete =>
        refine Or.inr ⟨r, hr, rfl, fun hmem => ?_⟩
        rcases List.mem_cons.mp hmem with heq | hmem
        · cases heq
        · exact hmem
    · cases hr₁
  · intro l' hl' hmem
    rcases List.mem_cons.mp hmem with heq | hmem
    · exact absurd (congrArg Operation.loc heq) hl'
    · exact hmem
  · intro r₁ hr₁ hb he
    rcases hr' with ⟨c, hc, rfl⟩ | ⟨-, rfl⟩
    · obtain rfl := Option.some.inj hr₁
      obtain ⟨type, l⟩ := op
      cases type with
      | insert => exact absurd hb (by show ¬ c < 0; omega)
      | delete => exact absurd he (by show ¬ c < 0; omega)
    · cases hr₁

/-- Rows without marks come and go. -/
theorem Marks.rewrite (h : Marks db.versions) {f : Loc → Option (Row D)}
    (hrow : ∀ l, f l = db.row l ∨
      ((db.row l = none ∨ ∃ r, db.row l = some r ∧ 0 ≤ r.beginXid ∧ 0 ≤ r.endXid) ∧
        ∀ r, f l = some r → 0 ≤ r.beginXid ∧ 0 ≤ r.endXid)) :
    Marks { db.versions with row := f } := by
  refine ⟨h.nonneg, h.lt, h.trx, ?_, ?_, ?_⟩
  · intro T x op hx hop hor
    obtain ⟨r, hr, hxid⟩ := h.marked T x op hx hop hor
    rcases hrow op.loc with heq | ⟨hnone | ⟨r₁, hr₁, hb, he⟩, -⟩
    · exact ⟨r, heq.trans hr, hxid⟩
    · cases hnone.symm.trans hr
    · obtain rfl := Option.some.inj (hr₁.symm.trans hr)
      have hT := (h.trx T x hx).pos
      unfold Operation.xid at hxid
      split at hxid <;> omega
  · intro l r hr hneg
    rcases hrow l with heq | ⟨-, hnew⟩
    · exact h.owner l r (heq.symm.trans hr) hneg
    · have := (hnew r hr).1
      omega
  · intro l r hr hb he
    rcases hrow l with heq | ⟨-, hnew⟩
    · exact h.both l r (heq.symm.trans hr) hb he
    · have := (hnew r hr).1
      omega

/-- **Step.** -/
theorem Marks.step {a : Action D U} {v' : Versions D} (h : Marks db.versions)
    (hok : KeepsMarks db a) (hstep : RowStep db a v') : Marks v' := by
  -- each kind of step turns a transaction, writes a row of one, or works off one operation
  cases hstep with
  | start => exact h.start hok
  | insert hx hphase hfree => exact h.insert hx hphase hfree
  | delete hx hphase hr hw => exact h.delete hx hphase hr hw
  -- a commit takes a new id, which is above every mark set so far
  | @commit T x hx hphase =>
    have hnonneg : 0 ≤ db.currentTrxId := h.nonneg
    have hxok := (h.trx T x hx).mono
      (show db.currentTrxId ≤ db.currentTrxId + 1 by omega)
    rw [nextTrxId_eq hnonneg hok]
    refine h.turn hx (by omega) hok { hxok with commitPos := ?_, commitLe := ?_, active := nofun }
      hphase fun _ => Iff.rfl
    · intro c hc
      obtain rfl := Phase.committing.inj hc
      omega
    · intro c hc
      obtain rfl := Phase.committing.inj hc
      exact Int.le_refl _
  | @commitOperation T c operations pending op r hx hr hxid =>
    have hc := (h.trx T _ hx).commitPos c rfl
    exact h.workOff hx nofun hr hxid (Or.inl ⟨c, hc, rfl⟩)
  -- the operations are undone in the reverse order, and these are the same operations
  | @rollback T x hx hphase =>
    have hxok := h.trx T x hx
    refine h.turn (c := db.currentTrxId) hx (Int.le_refl _) h.lt { hxok with
      commitPos := nofun, commitLe := nofun, active := nofun, once := ?_ } hphase ?_
    · show x.operations.reverse.Pairwise _
      rw [← hxok.active hphase]
      exact List.pairwise_reverse.mpr (hxok.once.imp fun {a b} hab hba => hba ▸ hab hba.symm)
    · intro op
      show op ∈ x.operations.reverse ↔ _
      rw [List.mem_reverse, hxok.active hphase]
  | @undoInsert T operations pending op r hx htype hr =>
    obtain ⟨r', hr', hxid⟩ := h.marked T _ op hx (by simp) (Or.inl htype)
    exact h.workOff hx nofun hr' hxid (Or.inr ⟨htype, rfl⟩)
  -- undoing a delete writes the mark that a row without one has
  | @undoDelete T operations pending op r hx htype hr hend =>
    have hset : ({ r with endXid := maxTrxId } : Row D) = op.setXid maxTrxId r := by
      unfold Operation.setXid
      rw [htype]
    rw [hset]
    refine h.workOff hx nofun hr ?_ (Or.inl ⟨maxTrxId, by decide, rfl⟩)
    rw [Operation.xid_delete htype]
    exact hend
  -- UPDATE writes only what it has taken up, and that had no marks
  | @update T tid stmt p row' hx hrow =>
    have hsel : ∀ l r, db.UpdateSelects T tid stmt l r →
        db.row l = some r ∧ 0 ≤ r.beginXid ∧ 0 ≤ r.endXid := fun l r hs =>
      ⟨hs.row.1, unmarked_of_selected hs.row.2 (hok l r hs)⟩
    refine h.rewrite fun l => (hrow l).imp_right ?_
    rintro ⟨hold, hnew⟩
    refine ⟨hold.imp_right fun ⟨r, hs⟩ => ⟨r, hsel l r hs⟩, fun r hr => ?_⟩
    rcases hnew with hnone | ⟨r₁, hr₁, l₀, r₀, hs, hb, he⟩
    · cases hnone.symm.trans hr
    · obtain rfl := Option.some.inj (hr₁.symm.trans hr)
      rw [hb, he]
      exact (hsel l₀ r₀ hs).2
  -- a loaded row carries no mark
  | @made tid rid data p hfree =>
    refine h.rewrite (f := ((db.versions.setRow (tid, rid) (some ⟨0, 0, data⟩))).row) fun l => ?_
    rw [Versions.setRow_row]
    by_cases hl : l = (tid, rid)
    · subst hl
      rw [if_pos rfl]
      refine Or.inr ⟨Or.inl hfree, fun r hr => ?_⟩
      obtain rfl := Option.some.inj hr
      exact ⟨Int.le_refl 0, Int.le_refl 0⟩
    · exact Or.inl (if_neg hl)
  | idle => exact h

end Step

/-- **Run.**  The marks are right in every database that admitted steps reach. -/
theorem marks_of_reachable {ok : Database D U → Action D U → Prop}
    (himp : ∀ db a, ok db a → KeepsMarks db a) {db : Database D U}
    (h : Reachable Database.step ok .empty db) : Marks db.versions :=
  h.invariant (I := fun db => Marks db.versions) Marks.empty
    fun _ _ _ _ hdb hok hstep => hdb.step (himp _ _ hok) (Database.step_rowStep hstep)

end Miniob.Trx
