/-
  What a transaction sees of its own operations.

  A pending INSERT marks the begin field with the transaction's identifier, and `visit_record`
  tries the begin field first: whoever has inserted a row sees it.  A row that the transaction has
  inserted and deleted again carries both marks, so it is still seen.
-/
import Miniob.Trx.Marks

namespace Miniob.Trx

open Miniob.Common Miniob.Db Miniob.Storage

variable {D U : Type}

/-- The transaction `T` sees the row at `l` if it has inserted it and not deleted it, and does not see
    it if it has deleted it. -/
def OwnWrites (db : Database D U) (T : Int) (x : MvccTrx) (l : Loc) : Prop :=
  (⟨.insert, l⟩ ∈ x.operations → ⟨.delete, l⟩ ∉ x.operations →
    ∃ r, db.row l = some r ∧ ∀ mode, visitRecord T mode r = .success) ∧
  (⟨.delete, l⟩ ∈ x.operations → ∀ r, db.row l = some r → ∀ mode, visitRecord T mode r ≠ .success)

/-- A row with the transaction's own begin mark. -/
theorem visitRecord_own {T : Int} {r : Row D} (h : r.beginXid = -T) (hT : 0 < T)
    (mode : ReadWriteMode) : visitRecord T mode r = .success := by
  unfold visitRecord
  rw [if_neg (by omega), if_pos (by omega), if_pos (by omega)]

/-- A row with the transaction's own end mark, inserted by somebody else. -/
theorem visitRecord_deleted {T : Int} {r : Row D} (h : r.endXid = -T) (hT : 0 < T)
    (hb : 0 ≤ r.beginXid) (mode : ReadWriteMode) : visitRecord T mode r ≠ .success := by
  unfold visitRecord
  rw [if_neg (by omega), if_neg (by omega), if_pos (by omega)]
  cases mode with
  | readOnly =>
    dsimp only
    rw [if_neg (by omega)]
    nofun
  | readWrite =>
    dsimp only
    rw [if_neg (by omega)]
    nofun

/-- **Headline.**  In every reachable database a running transaction sees exactly what it should of its
    own operations on a place, unless it has both inserted and deleted there. -/
theorem own_writes_iff (db : Database D U) (h : Reachable Database.step KeepsMarks .empty db)
    (T : Int) (x : MvccTrx) (hx : db.trx T = some x) (hphase : x.phase = .active) (l : Loc) :
    OwnWrites db T x l ↔ ¬ (⟨.insert, l⟩ ∈ x.operations ∧ ⟨.delete, l⟩ ∈ x.operations) := by
  have hmarks := marks_of_reachable (fun _ _ hok => hok) h
  have hxok := hmarks.trx T x hx
  have hmark : ∀ op ∈ x.operations, ∃ r, db.row op.loc = some r ∧ op.xid r = -T := fun op hop =>
    hmarks.marked T x op hx (hxok.active hphase ▸ hop) (Or.inr hphase)
  constructor
  · rintro ⟨-, hdel⟩ ⟨hi, hd⟩
    obtain ⟨r, hr, hb⟩ := hmark _ hi
    exact hdel hd r hr .readOnly (visitRecord_own hb hxok.pos .readOnly)
  · intro hnot
    constructor
    · intro hi _
      obtain ⟨r, hr, hb⟩ := hmark _ hi
      exact ⟨r, hr, visitRecord_own hb hxok.pos⟩
    · intro hd r hr mode
      obtain ⟨r', hr', he⟩ := hmark _ hd
      obtain rfl := Option.some.inj (hr.symm.trans hr')
      replace he : r.endXid = -T := he
      have hpos := hxok.pos
      refine visitRecord_deleted he hpos ?_ mode
      -- otherwise the row is one that the transaction has inserted itself
      by_contra hneg
      have hb : r.beginXid < 0 := by omega
      have hboth := hmarks.both l r hr hb (by omega)
      obtain ⟨y, hy, hmem⟩ := hmarks.owner l r hr hb
      rw [show -r.beginXid = T by omega] at hy
      obtain rfl := Option.some.inj (hx.symm.trans hy)
      exact hnot ⟨hxok.active hphase ▸ hmem, hd⟩

/-- Transaction 3 has deleted a row that transaction 1 has committed. -/
theorem own_writes_iff_deleted : ∃ (db : Database Int Int) (x : MvccTrx),
    db.trx 3 = some x ∧ ⟨.delete, (0, ⟨⟨1, 0⟩, by decide, by decide⟩)⟩ ∈ x.operations ∧
      OwnWrites db 3 x (0, ⟨⟨1, 0⟩, by decide, by decide⟩) := by
  have h₀ : Reachable Database.step KeepsMarks (.empty : Database Int Int) .empty := .init
  have h₁ := h₀.next (.createTable 0) trivial rfl
  have h₂ := h₁.next .start (by show (0 : Int) + 1 < maxTrxId; decide) rfl
  have h₃ := h₂.next (.insertRecord 1 0 7 firstSlots) trivial rfl
  have h₄ := h₃.next (.commit 1) (by show (1 : Int) + 1 < maxTrxId; decide) rfl
  have h₅ := h₄.next (.commitOperation 1) trivial rfl
  have h₆ := h₅.next .start (by show (2 : Int) + 1 < maxTrxId; decide) rfl
  have h₇ := h₆.next (.deleteRecord 3 0 ⟨⟨1, 0⟩, by decide, by decide⟩) trivial rfl
  refine ⟨_, _, rfl, List.mem_singleton_self _, (own_writes_iff _ h₇ 3 _ rfl rfl _).mpr ?_⟩
  rintro ⟨hinserted, -⟩
  cases List.mem_singleton.mp hinserted

/-- A row inserted and deleted by one transaction is still visible to it. -/
theorem deleted_own_row_visible :
    ¬ ∀ (db : Database Int Int), Reachable Database.step KeepsMarks .empty db → ∀ T x,
      db.trx T = some x → x.phase = .active → ∀ l, OwnWrites db T x l := by
  intro h
  have h₀ : Reachable Database.step KeepsMarks (.empty : Database Int Int) .empty := .init
  have h₁ := h₀.next (.createTable 0) trivial rfl
  have h₂ := h₁.next .start (by show (0 : Int) + 1 < maxTrxId; decide) rfl
  have h₃ := h₂.next (.insertRecord 1 0 7 firstSlots) trivial rfl
  have h₄ := h₃.next (.deleteRecord 1 0 ⟨⟨1, 0⟩, by decide, by decide⟩) trivial rfl
  have hown := h _ h₄ 1 _ rfl rfl (0, ⟨⟨1, 0⟩, by decide, by decide⟩)
  exact hown.2 (by decide) ⟨-1, -1, 7⟩ rfl .readOnly (by decide)

end Miniob.Trx
