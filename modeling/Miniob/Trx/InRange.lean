/-
  The identifiers in the hidden fields.

  Whatever the sessions do, a hidden field holds no identifier that the counter has not reached,
  save `maxTrxId`.
-/
import Miniob.Trx.UpdateIsolation

namespace Miniob.Trx

open Miniob.Common Miniob.Db Miniob.Storage

variable {D U : Type}

/-- The hidden fields hold no identifier that has not been handed out. -/
structure InRange (v : Versions D) : Prop where
  signs : Signs v
  /-- An identifier of a commit has been handed out. -/
  commitLe : ∀ T x c, v.trx T = some x → x.phase = .committing c → c ≤ v.currentTrxId
  beginXid : ∀ l r, v.row l = some r → -v.currentTrxId ≤ r.beginXid ∧ r.beginXid ≤ v.currentTrxId
  endXid : ∀ l r, v.row l = some r →
    r.endXid = maxTrxId ∨ (-v.currentTrxId ≤ r.endXid ∧ r.endXid ≤ v.currentTrxId)

section Step

variable {db : Database D U}

/-- Each hidden field of the row is one of a row before, or an identifier that has been handed out. -/
def FieldsFrom (db : Database D U) (r : Row D) : Prop :=
  ((∃ l₀ r₀, db.row l₀ = some r₀ ∧ r₀.beginXid = r.beginXid) ∨
    (-db.currentTrxId ≤ r.beginXid ∧ r.beginXid ≤ db.currentTrxId)) ∧
  ((∃ l₀ r₀, db.row l₀ = some r₀ ∧ r₀.endXid = r.endXid) ∨ r.endXid = maxTrxId ∨
    (-db.currentTrxId ≤ r.endXid ∧ r.endXid ≤ db.currentTrxId))

theorem InRange.empty : InRange (Database.empty : Database D U).versions where
  signs := Isolated.empty.signs
  commitLe _ _ _ hx := nomatch hx
  beginXid _ _ hr := nomatch hr
  endXid _ _ hr := nomatch hr

/-- The fields of a row after a step are those of a row before, or a number in range. -/
theorem InRange.fieldsFrom_step {a : Action D U} {v' : Versions D} (h : InRange db.versions)
    (hstep : RowStep db a v') : ∀ l r, v'.row l = some r → FieldsFrom db r := by
  have hnonneg : 0 ≤ db.currentTrxId := h.signs.nonneg
  intro l r hr
  have hsame : db.row l = some r → FieldsFrom db r :=
    fun hr₀ => ⟨Or.inl ⟨l, r, hr₀, rfl⟩, Or.inl ⟨l, r, hr₀, rfl⟩⟩
  cases hstep with
  | start | commit | rollback | idle => exact hsame hr
  | @insert T x tid rid data p hx hphase hfree =>
    rcases Versions.setRow_some.mp hr with ⟨rfl, hr₁⟩ | ⟨-, hr₁⟩
    · have hpos := h.signs.pos T x hx
      have hT : T ≤ db.currentTrxId := h.signs.le T x hx
      obtain rfl := Option.some.inj hr₁
      exact ⟨Or.inr ⟨by show -db.currentTrxId ≤ -T; omega, by show -T ≤ db.currentTrxId; omega⟩,
        Or.inr (Or.inl rfl)⟩
    · exact hsame hr₁
  | @delete T x tid rid r₀ hx hphase hr₀ hw =>
    rcases Versions.setRow_some.mp hr with ⟨rfl, hr₁⟩ | ⟨-, hr₁⟩
    · have hpos := h.signs.pos T x hx
      have hT : T ≤ db.currentTrxId := h.signs.le T x hx
      obtain rfl := Option.some.inj hr₁
      exact ⟨Or.inl ⟨_, r₀, hr₀, rfl⟩, Or.inr (Or.inr ⟨by show -db.currentTrxId ≤ -T; omega,
        by show -T ≤ db.currentTrxId; omega⟩)⟩
    · exact hsame hr₁
  | @commitOperation T c operations pending op r₀ hx hr₀ hxid =>
    rcases Versions.setRow_some.mp hr with ⟨rfl, hr₁⟩ | ⟨-, hr₁⟩
    · have hpos := h.signs.commitPos T _ c hx rfl
      have hc : c ≤ db.currentTrxId := h.commitLe T _ c hx rfl
      obtain rfl := Option.some.inj hr₁
      obtain ⟨type, l⟩ := op
      cases type with
      | insert =>
        exact ⟨Or.inr ⟨by show -db.currentTrxId ≤ c; omega, hc⟩, Or.inl ⟨l, r₀, hr₀, rfl⟩⟩
      | delete =>
        exact ⟨Or.inl ⟨l, r₀, hr₀, rfl⟩,
          Or.inr (Or.inr ⟨by show -db.currentTrxId ≤ c; omega, hc⟩)⟩
    · exact hsame hr₁
  | undoInsert =>
    rcases Versions.setRow_some.mp hr with ⟨rfl, hr₁⟩ | ⟨-, hr₁⟩
    · cases hr₁
    · exact hsame hr₁
  | @undoDelete T operations pending op r₀ hx htype hr₀ hend =>
    rcases Versions.setRow_some.mp hr with ⟨rfl, hr₁⟩ | ⟨-, hr₁⟩
    · obtain rfl := Option.some.inj hr₁
      exact ⟨Or.inl ⟨_, r₀, hr₀, rfl⟩, Or.inr (Or.inl rfl)⟩
    · exact hsame hr₁
  | update hx hrow =>
    -- a row that UPDATE has moved keeps the fields of the old one
    rcases hrow l with heq | ⟨-, hnone | ⟨r₁, hr₁, l₀, r₀, hs, hb, he⟩⟩
    · exact hsame (heq.symm.trans hr)
    · cases hnone.symm.trans hr
    · obtain rfl := Option.some.inj (hr₁.symm.trans hr)
      exact ⟨Or.inl ⟨l₀, r₀, hs.row.1, hb.symm⟩, Or.inl ⟨l₀, r₀, hs.row.1, he.symm⟩⟩
  | made =>
    rcases Versions.setRow_some.mp hr with ⟨rfl, hr₁⟩ | ⟨-, hr₁⟩
    · obtain rfl := Option.some.inj hr₁
      exact ⟨Or.inr ⟨by show -db.currentTrxId ≤ 0; omega, hnonneg⟩,
        Or.inr (Or.inr ⟨by show -db.currentTrxId ≤ 0; omega, hnonneg⟩)⟩
    · exact hsame hr₁

/-- **Step.** -/
theorem InRange.step {a : Action D U} {v' : Versions D} (h : InRange db.versions)
    (hok : CountsUp db a) (hstep : RowStep db a v') : InRange v' := by
  have hsigns := h.signs.step hok hstep
  have hnonneg : 0 ≤ db.currentTrxId := h.signs.nonneg
  obtain ⟨hle, htrx⟩ := trx_step hnonneg hok hstep
  have hfields := h.fieldsFrom_step hstep
  refine ⟨hsigns, ?_, ?_, ?_⟩
  · intro T x' c hx' hc
    rcases htrx T x' hx' with ⟨x, hx, hp | ⟨-, hp | ⟨-, hp⟩⟩⟩ | ⟨-, -, -, hp⟩
    · exact Int.le_trans (h.commitLe T x c hx (hp.symm.trans hc)) hle
    · cases hp.symm.trans hc
    · obtain rfl := Phase.committing.inj (hp.symm.trans hc)
      exact Int.le_refl _
    · cases hp.symm.trans hc
  · intro l r hr
    rcases (hfields l r hr).1 with ⟨l₀, r₀, hr₀, hb⟩ | hb
    · have : -db.currentTrxId ≤ r₀.beginXid ∧ r₀.beginXid ≤ db.currentTrxId := h.beginXid l₀ r₀ hr₀
      omega
    · omega
  · intro l r hr
    rcases (hfields l r hr).2 with ⟨l₀, r₀, hr₀, he⟩ | hmax | he
    · have : r₀.endXid = maxTrxId ∨ (-db.currentTrxId ≤ r₀.endXid ∧ r₀.endXid ≤ db.currentTrxId) :=
        h.endXid l₀ r₀ hr₀
      omega
    · exact Or.inl hmax
    · omega

end Step

end Miniob.Trx
