/-
  UPDATE statements and the other transactions.

  The UPDATE operator removes the rows it takes up and inserts the changed ones with the hidden
  fields of the old ones, so that nothing marks them as not committed.  Whoever sees the old row
  sees the new one at once.  Only the rows of the transaction's own INSERTs are safe, and those of a
  transaction that runs alone.

  Who has written a row is not in the database, so that `Writers` notes it beside.
-/
import Miniob.Trx.StoredRows

namespace Miniob.Trx

open Miniob.Common Miniob.Db Miniob.Storage

variable {D U : Type}

/-! ## Histories -/

/-- The database, and for each row whose UPDATE has written it and whose DELETE has marked it. -/
structure Writers (D U : Type) where
  db : Database D U
  updatedBy : Loc → Option Int
  deletedBy : Loc → Option Int

namespace Writers

def empty : Writers D U where
  db := .empty
  updatedBy _ := none
  deletedBy _ := none

open Classical in
/-- The note about a row: gone with the row, `new` if the action has changed the row, and otherwise
    the old one. -/
noncomputable def note (row row' : Option (Row D)) (old new : Option Int) : Option Int :=
  if row' = none then none else if row' = row then old else new

/-- `Database.step`, with the notes. -/
noncomputable def step (h : Writers D U) (a : Action D U) : Except Fault (RC × Writers D U) := do
  let (rc, db) ← h.db.step a
  return (rc, {
    db
    updatedBy := fun l => note (h.db.row l) (db.row l) (h.updatedBy l) <|
      match a with
      | .update T .. => some T
      | _ => if (h.db.row l).isNone then none else h.updatedBy l
    deletedBy := fun l => note (h.db.row l) (db.row l) (h.deletedBy l) <|
      match a with
      | .update .. => none
      | .deleteRecord T .. => some T
      | _ => if (h.db.row l).isNone then none else h.deletedBy l })

end Writers

/-- Nobody but `T` is running. -/
def Alone (db : Database D U) (T : Int) : Prop :=
  ∀ S y, db.trx S = some y → y.phase = .active → S = T

/-- An UPDATE statement takes up rows that its own transaction has inserted, or the transaction runs
    alone; then nobody starts until it has ended. -/
def KeepsIsolation (h : Writers D U) (a : Action D U) : Prop :=
  CountsUp h.db a ∧ match a with
    | .start => ∀ l T x r, h.updatedBy l = some T → h.db.trx T = some x → x.phase = .active →
      h.db.row l = some r → r.beginXid = -T
    | .update T tid stmt _ => (∀ l r, h.db.UpdateSelects T tid stmt l r → r.beginXid = -T) ∨
      Alone h.db T
    | _ => True

/-! ## The invariant -/

/-- The signs of the identifiers. -/
structure Signs (v : Versions D) : Prop where
  nonneg : 0 ≤ v.currentTrxId
  pos : ∀ T x, v.trx T = some x → 0 < T
  le : ∀ T x, v.trx T = some x → T ≤ v.currentTrxId
  commitPos : ∀ T x c, v.trx T = some x → x.phase = .committing c → 0 < c
  /-- The two marks of a row are of one transaction. -/
  both : ∀ l r, v.row l = some r → r.beginXid < 0 → r.endXid < 0 → r.endXid = r.beginXid

/-- What UPDATE statements have left in the rows, for transactions that still run. -/
structure Isolated (h : Writers D U) : Prop where
  signs : Signs h.db.versions
  /-- Who has updated a row has marked it, or works alone. -/
  updated : ∀ l T x, h.updatedBy l = some T → h.db.trx T = some x → x.phase = .active →
    ∃ r, h.db.row l = some r ∧ (r.beginXid = -T ∨ Alone h.db T)
  /-- Who has deleted a row has marked it. -/
  deleted : ∀ l T x, h.deletedBy l = some T → h.db.trx T = some x → x.phase = .active →
    ∃ r, h.db.row l = some r ∧ r.endXid = -T
  updatedLe : ∀ l T, h.updatedBy l = some T → T ≤ h.db.currentTrxId
  deletedLe : ∀ l T, h.deletedBy l = some T → T ≤ h.db.currentTrxId

/-! ## Every step keeps it -/

section Step

variable {db : Database D U}

/-- How the hidden fields of a row change: at the hands of a transaction that ends and whose mark they
    carry, or in a DELETE. -/
theorem fields_step {a : Action D U} {v' : Versions D} (hsigns : Signs db.versions)
    (ha : WithoutUpdate a) (hstep : RowStep db a v') {l : Loc} {r r' : Row D}
    (hr : db.row l = some r) (hr' : v'.row l = some r') :
    (r'.beginXid = r.beginXid ∨
      ∃ S y, db.trx S = some y ∧ y.phase ≠ .active ∧ r.beginXid = -S ∧ 0 < r'.beginXid) ∧
    (r'.endXid = r.endXid ∨
      (∃ S y, db.trx S = some y ∧ y.phase ≠ .active ∧ r.endXid = -S ∧ 0 < r'.endXid) ∨
      ∃ S y tid rid, a = .deleteRecord S tid rid ∧ db.trx S = some y ∧ y.phase = .active ∧
        Writable S r ∧ r'.endXid = -S ∧ r'.beginXid = r.beginXid) := by
  have hsame : v'.row l = db.row l → r'.beginXid = r.beginXid ∧ r'.endXid = r.endXid := by
    intro heq
    obtain rfl := Option.some.inj (hr'.symm.trans (heq.trans hr))
    exact ⟨rfl, rfl⟩
  -- a mark is written by the delete of its own transaction, by a commit or by an undo
  cases hstep with
  | start | commit | rollback | idle => exact (hsame rfl).imp Or.inl Or.inl
  | insert hx hphase hfree =>
    rcases Versions.setRow_some.mp hr' with ⟨rfl, -⟩ | ⟨hl, -⟩
    · cases hfree.symm.trans hr
    · exact (hsame (if_neg hl)).imp Or.inl Or.inl
  | delete hx hphase hr₀ hw =>
    rcases Versions.setRow_some.mp hr' with ⟨rfl, hr₁⟩ | ⟨hl, -⟩
    · obtain rfl := Option.some.inj hr₁
      obtain rfl := Option.some.inj (hr.symm.trans hr₀)
      exact ⟨Or.inl rfl, Or.inr (Or.inr ⟨_, _, _, _, rfl, hx, hphase, hw, rfl, rfl⟩)⟩
    · exact (hsame (if_neg hl)).imp Or.inl Or.inl
  -- the commit writes the id over the mark of the transaction, which is a positive number
  | @commitOperation T c operations pending op r₀ hx hr₀ hxid =>
    rcases Versions.setRow_some.mp hr' with ⟨rfl, hr₁⟩ | ⟨hl, -⟩
    · have hc := hsigns.commitPos T _ c hx rfl
      obtain rfl := Option.some.inj hr₁
      obtain rfl := Option.some.inj (hr.symm.trans hr₀)
      obtain ⟨type, l⟩ := op
      cases type with
      | insert => exact ⟨Or.inr ⟨T, _, hx, nofun, hxid, hc⟩, Or.inl rfl⟩
      | delete => exact ⟨Or.inl rfl, Or.inr (Or.inl ⟨T, _, hx, nofun, hxid, hc⟩)⟩
    · exact (hsame (if_neg hl)).imp Or.inl Or.inl
  | undoInsert =>
    rcases Versions.setRow_some.mp hr' with ⟨rfl, hr₁⟩ | ⟨hl, -⟩
    · cases hr₁
    · exact (hsame (if_neg hl)).imp Or.inl Or.inl
  -- the undo writes the greatest id over it
  | @undoDelete T operations pending op r₀ hx htype hr₀ hend =>
    rcases Versions.setRow_some.mp hr' with ⟨rfl, hr₁⟩ | ⟨hl, -⟩
    · obtain rfl := Option.some.inj hr₁
      obtain rfl := Option.some.inj (hr.symm.trans hr₀)
      refine ⟨Or.inl rfl, Or.inr (Or.inl ⟨T, _, hx, nofun, hend, ?_⟩)⟩
      show 0 < maxTrxId
      decide
    · exact (hsame (if_neg hl)).imp Or.inl Or.inl
  | update => exact ha.elim
  | made hfree =>
    rcases Versions.setRow_some.mp hr' with ⟨rfl, -⟩ | ⟨hl, -⟩
    · cases hfree.symm.trans hr
    · exact (hsame (if_neg hl)).imp Or.inl Or.inl

/-- The signs stay right. -/
theorem Signs.step {a : Action D U} {v' : Versions D} (h : Signs db.versions) (hok : CountsUp db a)
    (hstep : RowStep db a v') : Signs v' := by
  have hnonneg : 0 ≤ db.currentTrxId := h.nonneg
  obtain ⟨hle, htrx⟩ := trx_step hnonneg hok hstep
  -- only the last part is about the rows: no row is marked at both ends
  refine ⟨Int.le_trans hnonneg hle, ?_, ?_, ?_, ?_⟩
  · intro T x' hx'
    rcases htrx T x' hx' with ⟨x, hx, -⟩ | ⟨-, hlt, rfl, -⟩
    · exact h.pos T x hx
    · omega
  · intro T x' hx'
    rcases htrx T x' hx' with ⟨x, hx, -⟩ | ⟨-, -, rfl, -⟩
    · exact Int.le_trans (h.le T x hx) hle
    · exact Int.le_refl _
  · intro T x' c hx' hc
    rcases htrx T x' hx' with ⟨x, hx, hp | ⟨-, hp | ⟨hlt, hp⟩⟩⟩ | ⟨-, -, -, hp⟩
    · exact h.commitPos T x c hx (hp.symm.trans hc)
    · cases hp.symm.trans hc
    · obtain rfl := Phase.committing.inj (hp.symm.trans hc)
      omega
    · cases hp.symm.trans hc
  · intro l r' hr' hb he
    -- a row that is new has one mark at most
    cases hr : db.row l with
    | none =>
      cases hstep with
      | start | commit | rollback | idle => cases hr'.symm.trans hr
      | insert =>
        rcases Versions.setRow_some.mp hr' with ⟨rfl, hr₁⟩ | ⟨-, hr₁⟩
        · obtain rfl := Option.some.inj hr₁
          exact absurd he (by show ¬ maxTrxId < 0; decide)
        · cases hr₁.symm.trans hr
      | made =>
        rcases Versions.setRow_some.mp hr' with ⟨rfl, hr₁⟩ | ⟨-, hr₁⟩
        · obtain rfl := Option.some.inj hr₁
          exact absurd hb (by show ¬ (0 : Int) < 0; decide)
        · cases hr₁.symm.trans hr
      | delete hx hphase hr₀ | commitOperation hx hr₀ | undoInsert hx htype hr₀
      | undoDelete hx htype hr₀ =>
        rcases Versions.setRow_some.mp hr' with ⟨rfl, -⟩ | ⟨-, hr₁⟩
        · cases hr.symm.trans hr₀
        · cases hr₁.symm.trans hr
      | update hx hrow =>
        rcases hrow l with heq | ⟨-, hnone | ⟨r₁, hr₁, l₀, r₀, hs, hb₀, he₀⟩⟩
        · cases hr'.symm.trans (heq.trans hr)
        · cases hr'.symm.trans hnone
        · obtain rfl := Option.some.inj (hr'.symm.trans hr₁)
          rw [hb₀] at hb ⊢
          rw [he₀] at he ⊢
          exact h.both l₀ r₀ hs.row.1 hb he
    -- a row that was there before: a step without UPDATE writes one of its ends
    | some r =>
      by_cases ha : WithoutUpdate a
      · obtain ⟨hbegin, hend⟩ := fields_step h ha hstep hr hr'
        have hboth := h.both l r hr
        rcases hbegin with hbegin | ⟨S, y, -, -, -, hpos⟩
        · rcases hend with hend | ⟨S, y, -, -, -, hpos⟩ | ⟨S, y, tid, rid, -, hy, -, hw, hend, -⟩
          · omega
          · omega
          · have := h.pos S y hy
            rcases writable_iff.mp hw with ⟨h1, -⟩ | ⟨-, h2⟩ | ⟨h1, -⟩ <;> omega
        · omega
      -- UPDATE writes the marks of a row it has selected
      · cases hstep with
        | update hx hrow =>
          rcases hrow l with heq | ⟨-, hnone | ⟨r₁, hr₁, l₀, r₀, hs, hb₀, he₀⟩⟩
          · exact h.both l r' (heq.symm.trans hr') hb he
          · cases hr'.symm.trans hnone
          · obtain rfl := Option.some.inj (hr'.symm.trans hr₁)
            rw [hb₀] at hb ⊢
            rw [he₀] at he ⊢
            exact h.both l₀ r₀ hs.row.1 hb he
        | idle => exact h.both l r' hr' hb he
        | _ => exact absurd trivial ha

theorem Writers.note_some {row row' : Option (Row D)} {old new : Option Int} {S : Int}
    (h : note row row' old new = some S) :
    row' ≠ none ∧ ((row' = row ∧ old = some S) ∨ (row' ≠ row ∧ new = some S)) := by
  unfold note at h
  split at h
  · cases h
  · rename_i hne
    split at h
    · rename_i heq
      exact ⟨hne, Or.inl ⟨heq, h⟩⟩
    · rename_i hchanged
      exact ⟨hne, Or.inr ⟨hchanged, h⟩⟩

/-- A row that the action has changed. -/
theorem Writers.note_changed {r r' : Row D} {old new : Option Int} (hne : r' ≠ r) :
    note (some r) (some r') old new = new := by
  unfold note
  rw [if_neg nofun, if_neg fun heq => hne (Option.some.inj heq)]

theorem Isolated.empty : Isolated (Writers.empty : Writers D U) where
  signs := {
    nonneg := Int.le_refl 0
    pos := fun _ _ hx => nomatch hx
    le := fun _ _ hx => nomatch hx
    commitPos := fun _ _ _ hx => nomatch hx
    both := fun _ _ hr => nomatch hr }
  updated _ _ _ hl := nomatch hl
  deleted _ _ _ hl := nomatch hl
  updatedLe _ _ hl := nomatch hl
  deletedLe _ _ hl := nomatch hl

variable {h : Writers D U}

/-- A row with the begin mark of a running transaction keeps it. -/
theorem Isolated.begin_kept (hi : Isolated h) {a : Action D U} {v' : Versions D}
    (ha : WithoutUpdate a) (hstep : RowStep h.db a v') {l : Loc} {r r' : Row D} {T : Int} {x : MvccTrx}
    (hx : h.db.trx T = some x) (hactive : x.phase = .active) (hr : h.db.row l = some r)
    (hr' : v'.row l = some r') (hb : r.beginXid = -T) : r'.beginXid = -T := by
  rcases (fields_step hi.signs ha hstep hr hr').1 with heq | ⟨S, y, hy, hne, hS, -⟩
  · exact heq.trans hb
  · obtain rfl : S = T := by omega
    obtain rfl := Option.some.inj (hx.symm.trans hy)
    exact absurd hactive hne

/-- So does a row with its end mark. -/
theorem Isolated.end_kept (hi : Isolated h) {a : Action D U} {v' : Versions D}
    (ha : WithoutUpdate a) (hstep : RowStep h.db a v') {l : Loc} {r r' : Row D} {T : Int} {x : MvccTrx}
    (hx : h.db.trx T = some x) (hactive : x.phase = .active) (hr : h.db.row l = some r)
    (hr' : v'.row l = some r') (he : r.endXid = -T) : r'.endXid = -T := by
  have hT := hi.signs.pos T x hx
  rcases (fields_step hi.signs ha hstep hr hr').2 with heq | ⟨S, y, hy, hne, hS, -⟩ |
      ⟨S, y, tid, rid, -, hy, -, hw, hend, -⟩
  · exact heq.trans he
  · obtain rfl : S = T := by omega
    obtain rfl := Option.some.inj (hx.symm.trans hy)
    exact absurd hactive hne
  · -- only who has inserted the row can delete it once more
    have hS := hi.signs.pos S y hy
    have hboth := hi.signs.both l r hr
    rcases writable_iff.mp hw with ⟨h1, h2, -⟩ | ⟨-, h2⟩ | ⟨h1, h2, -⟩ <;> omega

/-- What an UPDATE statement writes is its own, or the transaction runs alone. -/
theorem Isolated.update {T : Int} {tid : TableId} {stmt : UpdateStmt D} {p : Placement D}
    {v' : Versions D} (hi : Isolated h) (hok : KeepsIsolation h (.update T tid stmt p))
    (hstep : RowStep h.db (.update T tid stmt p) v') {l : Loc} (hne : v'.row l ≠ none)
    (hchanged : v'.row l ≠ h.db.row l) :
    T ≤ h.db.currentTrxId ∧ ∃ r, v'.row l = some r ∧ (r.beginXid = -T ∨ Alone h.db T) := by
  cases hstep with
  | @update _ _ _ _ row' hx hrow =>
    obtain ⟨x, hx, hactive⟩ := hx
    refine ⟨hi.signs.le T x hx, ?_⟩
    rcases hrow l with heq | ⟨-, hnone | ⟨r, hr, l₀, r₀, hs, hb, -⟩⟩
    · exact absurd heq hchanged
    · exact absurd hnone hne
    · refine ⟨r, hr, ?_⟩
      rcases hok.2 with hown | halone
      · exact Or.inl (hb.trans (hown l₀ r₀ hs))
      · exact Or.inr halone
  | idle => exact absurd rfl hchanged

/-- A DELETE that changes a row has marked it. -/
theorem Isolated.delete {T : Int} {tid : TableId} {rid : RecordId} {v' : Versions D} (hi : Isolated h)
    (hstep : RowStep h.db (.deleteRecord T tid rid) v') {l : Loc}
    (hchanged : v'.row l ≠ h.db.row l) :
    T ≤ h.db.currentTrxId ∧ ∃ r, v'.row l = some r ∧ r.endXid = -T := by
  cases hstep with
  | delete hx hphase hr hw =>
    refine ⟨hi.signs.le _ _ hx, ?_⟩
    by_cases hl : l = (tid, rid)
    · exact ⟨_, if_pos hl, rfl⟩
    · exact absurd (if_neg hl) hchanged
  | idle => exact absurd rfl hchanged

/-- Whoever runs alone still does, unless somebody starts. -/
theorem alone_step {a : Action D U} {v' : Versions D} (hsigns : Signs db.versions)
    (hok : CountsUp db a) (hstep : RowStep db a v') (ha : a ≠ .start) {T : Int} (halone : Alone db T)
    {S : Int} {y : MvccTrx} (hy : v'.trx S = some y) (hactive : y.phase = .active) : S = T := by
  rcases active_step hsigns.nonneg hok hstep hy hactive with ⟨x, hx, hp⟩ | ⟨hstart, -⟩
  · exact halone S x hx hp
  · exact absurd hstart ha

/-- **Step.** -/
theorem Isolated.step {h' : Writers D U} {a : Action D U} {rc : RC} (hi : Isolated h)
    (hok : KeepsIsolation h a) (hstep : h.step a = .ok (rc, h')) : Isolated h' := by
  unfold Writers.step at hstep
  obtain ⟨⟨rc', db'⟩, hdb, hstep⟩ := ok_of_bind hstep
  obtain ⟨-, rfl⟩ := Prod.mk.inj (Except.ok.inj hstep)
  have hrow := Database.step_rowStep hdb
  have hle : h.db.currentTrxId ≤ db'.currentTrxId := (trx_step hi.signs.nonneg hok.1 hrow).1
  have hran : ∀ {T x'}, T ≤ h.db.currentTrxId → db'.trx T = some x' → x'.phase = .active →
      ∃ x, h.db.trx T = some x ∧ x.phase = .active := by
    intro T x' hT hx' hp
    rcases active_step hi.signs.nonneg hok.1 hrow hx' hp with hx | ⟨-, hlt⟩
    · exact hx
    · omega
  have halone : ∀ {T l r}, h.updatedBy l = some T → h.db.row l = some r →
      (∃ x, h.db.trx T = some x ∧ x.phase = .active) → Alone h.db T →
      r.beginXid = -T ∨ Alone db' T := by
    rintro T l r hl hr ⟨x, hx, hp⟩ hal
    by_cases ha : a = .start
    · subst ha
      exact Or.inl (hok.2 l T x r hl hx hp hr)
    · exact Or.inr fun S y hy hactive => alone_step hi.signs hok.1 hrow ha hal hy hactive
  -- a note that is kept
  have hupdated : ∀ {T l x'}, h.updatedBy l = some T → db'.row l ≠ none →
      (WithoutUpdate a ∨ db'.row l = h.db.row l) → db'.trx T = some x' → x'.phase = .active →
      ∃ r, db'.row l = some r ∧ (r.beginXid = -T ∨ Alone db' T) := by
    intro T l x' hl hne ha hx' hp
    obtain ⟨x, hx, hpx⟩ := hran (hi.updatedLe l T hl) hx' hp
    obtain ⟨r, hr, hor⟩ := hi.updated l T x hl hx hpx
    obtain ⟨r', hr'⟩ := Option.ne_none_iff_exists'.mp hne
    refine ⟨r', hr', ?_⟩
    have hbegin : r.beginXid = -T → r'.beginXid = -T := by
      intro hb
      rcases ha with ha | heq
      · exact hi.begin_kept ha hrow hx hpx hr hr' hb
      · obtain rfl := Option.some.inj (hr'.symm.trans (heq.trans hr))
        exact hb
    rcases hor with hb | hal
    · exact Or.inl (hbegin hb)
    · exact (halone hl hr ⟨x, hx, hpx⟩ hal).imp_left hbegin
  have hdeleted : ∀ {T l x'}, h.deletedBy l = some T → db'.row l ≠ none →
      (WithoutUpdate a ∨ db'.row l = h.db.row l) → db'.trx T = some x' → x'.phase = .active →
      ∃ r, db'.row l = some r ∧ r.endXid = -T := by
    intro T l x' hl hne ha hx' hp
    obtain ⟨x, hx, hpx⟩ := hran (hi.deletedLe l T hl) hx' hp
    obtain ⟨r, hr, he⟩ := hi.deleted l T x hl hx hpx
    obtain ⟨r', hr'⟩ := Option.ne_none_iff_exists'.mp hne
    refine ⟨r', hr', ?_⟩
    rcases ha with ha | heq
    · exact hi.end_kept ha hrow hx hpx hr hr' he
    · obtain rfl := Option.some.inj (hr'.symm.trans (heq.trans hr))
      exact he
  have hkept : ∀ {l T} {old : Option Int}, (if (h.db.row l).isNone then none else old) = some T →
      old = some T := by
    intro l T old hl
    split at hl
    · cases hl
    · exact hl
  refine ⟨hi.signs.step hok.1 hrow, ?_, ?_, ?_, ?_⟩
  · intro l T x' hl hx' hp
    obtain ⟨hne, ⟨heq, hl⟩ | ⟨hchanged, hl⟩⟩ := Writers.note_some hl
    · exact hupdated hl hne (Or.inr heq) hx' hp
    · cases a with
      | update T' tid stmt p =>
        obtain rfl := Option.some.inj hl
        obtain ⟨-, r, hr, hor⟩ := hi.update hok hrow hne hchanged
        refine ⟨r, hr, hor.imp_right fun hal S y hy hactive => ?_⟩
        exact alone_step hi.signs hok.1 hrow nofun hal hy hactive
      | _ => exact hupdated (hkept hl) hne (Or.inl trivial) hx' hp
  · intro l T x' hl hx' hp
    obtain ⟨hne, ⟨heq, hl⟩ | ⟨hchanged, hl⟩⟩ := Writers.note_some hl
    · exact hdeleted hl hne (Or.inr heq) hx' hp
    · cases a with
      | update T' tid stmt p => cases hl
      | deleteRecord T' tid rid =>
        obtain rfl := Option.some.inj hl
        exact (hi.delete hrow hchanged).2
      | _ => exact hdeleted (hkept hl) hne (Or.inl trivial) hx' hp
  · intro l T hl
    refine Int.le_trans ?_ hle
    obtain ⟨hne, ⟨-, hl⟩ | ⟨hchanged, hl⟩⟩ := Writers.note_some hl
    · exact hi.updatedLe l T hl
    · cases a with
      | update T' tid stmt p =>
        obtain rfl := Option.some.inj hl
        exact (hi.update hok hrow hne hchanged).1
      | _ => exact hi.updatedLe l T (hkept hl)
  · intro l T hl
    refine Int.le_trans ?_ hle
    obtain ⟨-, ⟨-, hl⟩ | ⟨hchanged, hl⟩⟩ := Writers.note_some hl
    · exact hi.deletedLe l T hl
    · cases a with
      | update T' tid stmt p => cases hl
      | deleteRecord T' tid rid =>
        obtain rfl := Option.some.inj hl
        exact (hi.delete hrow hchanged).1
      | _ => exact hi.deletedLe l T (hkept hl)

end Step

/-! ## Isolation -/

/-- What the transactions that run beside an UPDATE may rely on; `ok` are the UPDATE statements that may
    come next. -/
structure UpdatesIsolated (ok : Writers D U → Action D U → Prop) (h : Writers D U) : Prop where
  /-- Nobody else sees what a running transaction has written. -/
  unseen : ∀ l T x S y r, h.updatedBy l = some T → h.db.trx T = some x → x.phase = .active →
    h.db.trx S = some y → y.phase = .active → S ≠ T → h.db.row l = some r → ¬ Visible S r
  /-- Nobody else may write what a running transaction has updated or deleted. -/
  locked : ∀ l T x S y r, h.updatedBy l = some T ∨ h.deletedBy l = some T → h.db.trx T = some x →
    x.phase = .active → h.db.trx S = some y → y.phase = .active → S ≠ T → h.db.row l = some r →
    ¬ Writable S r
  /-- An UPDATE does not change what the others see. -/
  stable : ∀ T tid stmt p rc h', ok h (.update T tid stmt p) →
    h.step (.update T tid stmt p) = .ok (rc, h') → ∀ S y, h.db.trx S = some y →
    y.phase = .active → S ≠ T → ∀ l r,
    (h.db.row l = some r ∧ Visible S r) ↔ (h'.db.row l = some r ∧ Visible S r)

/-- The begin mark of another transaction. -/
theorem not_visible_of_begin {S T : Int} {r : Row D} (hb : r.beginXid = -T) (hT : 0 < T) (hne : S ≠ T) :
    ¬ Visible S r ∧ ¬ Writable S r := by
  rw [visible_iff, writable_iff]
  omega

/-- An UPDATE of rows that carry the begin mark of its transaction. -/
theorem update_unseen {db : Database D U} {T S : Int} {tid : TableId} {stmt : UpdateStmt D}
    {p : Placement D} {v' : Versions D} (hsigns : Signs db.versions)
    (hown : ∀ l r, db.UpdateSelects T tid stmt l r → r.beginXid = -T)
    (hstep : RowStep db (.update T tid stmt p) v') (hne : S ≠ T) (l : Loc) (r : Row D) :
    (db.row l = some r ∧ Visible S r) ↔ (v'.row l = some r ∧ Visible S r) := by
  cases hstep with
  | idle => exact Iff.rfl
  | @update _ _ _ _ row' hx hrow =>
    obtain ⟨x, hx, -⟩ := hx
    have hT := hsigns.pos T x hx
    rcases hrow l with heq | ⟨hold, hnew⟩
    · show _ ↔ row' l = some r ∧ _
      rw [heq]
    · -- neither the old row nor the new one is visible
      refine iff_of_false ?_ ?_
      · rintro ⟨hr, hv⟩
        rcases hold with hnone | ⟨r₁, hs⟩
        · cases hnone.symm.trans hr
        · obtain rfl := Option.some.inj (hs.row.1.symm.trans hr)
          exact (not_visible_of_begin (hown l r₁ hs) hT hne).1 hv
      · rintro ⟨hr, hv⟩
        replace hr : row' l = some r := hr
        rcases hnew with hnone | ⟨r₁, hr₁, l₀, r₀, hs, hb, -⟩
        · cases hnone.symm.trans hr
        · obtain rfl := Option.some.inj (hr₁.symm.trans hr)
          exact (not_visible_of_begin (hb.trans (hown l₀ r₀ hs)) hT hne).1 hv

theorem Isolated.updatesIsolated {h : Writers D U} (hi : Isolated h) :
    UpdatesIsolated KeepsIsolation h := by
  have hupdated : ∀ {l T x S y r}, h.updatedBy l = some T → h.db.trx T = some x →
      x.phase = .active → h.db.trx S = some y → y.phase = .active → S ≠ T →
      h.db.row l = some r → ¬ Visible S r ∧ ¬ Writable S r := by
    intro l T x S y r hl hx hxp hy hyp hne hr
    obtain ⟨r', hr', hb | halone⟩ := hi.updated l T x hl hx hxp
    · obtain rfl := Option.some.inj (hr.symm.trans hr')
      exact not_visible_of_begin hb (hi.signs.pos T x hx) hne
    · exact absurd (halone S y hy hyp) hne
  refine ⟨?_, ?_, ?_⟩
  · intro l T x S y r hl hx hxp hy hyp hne hr
    exact (hupdated hl hx hxp hy hyp hne hr).1
  · intro l T x S y r hl hx hxp hy hyp hne hr
    rcases hl with hl | hl
    · exact (hupdated hl hx hxp hy hyp hne hr).2
    · obtain ⟨r', hr', he⟩ := hi.deleted l T x hl hx hxp
      obtain rfl := Option.some.inj (hr.symm.trans hr')
      have hT := hi.signs.pos T x hx
      have hboth := hi.signs.both l r hr
      rw [writable_iff]
      omega
  · intro T tid stmt p rc h' hok hstep S y hy hyp hne l r
    unfold Writers.step at hstep
    obtain ⟨⟨rc', db'⟩, hdb, hstep⟩ := ok_of_bind hstep
    obtain ⟨-, rfl⟩ := Prod.mk.inj (Except.ok.inj hstep)
    have hrow := Database.step_rowStep hdb
    rcases hok.2 with hown | halone
    · exact update_unseen hi.signs hown hrow hne l r
    · exact absurd (halone S y hy hyp) hne

/-- **Headline.**  In runs in which UPDATE statements take up rows of their own transaction, or run alone
    until their transaction has ended, they are isolated from the other transactions. -/
theorem updates_isolated (h : Writers D U) (hreach : Reachable Writers.step KeepsIsolation .empty h) :
    UpdatesIsolated KeepsIsolation h := by
  have hi : Isolated h := hreach.invariant (I := Isolated) Isolated.empty
    fun _ _ _ _ hi hok hstep => hi.step hok hstep
  exact hi.updatesIsolated

/-- The statement `UPDATE .. SET field = 8`. -/
def setEight : UpdateStmt Int where
  access := .tableScan
  select _ := true
  set := ⟨fun _ => 8, fun _ => rfl⟩

/-- A row that transaction 1 has inserted and updated. -/
theorem updates_isolated_own : ∃ h : Writers Int Int, UpdatesIsolated KeepsIsolation h := by
  have h₀ : Reachable Writers.step KeepsIsolation (.empty : Writers Int Int) .empty := .init
  have h₁ := h₀.next (.createTable 0) ⟨trivial, trivial⟩ rfl
  have h₂ := h₁.next .start
    ⟨by show (0 : Int) + 1 < maxTrxId; decide, fun _ _ _ _ _ hx => nomatch hx⟩ rfl
  have h₃ := h₂.next (.insertRecord 1 0 7 firstSlots) ⟨trivial, trivial⟩ rfl
  have h₄ := h₃.next (.update 1 0 setEight firstSlots) ⟨trivial, Or.inl (by
    rintro l r ⟨t, ht, -, hmem⟩
    obtain rfl := Option.some.inj ht
    obtain ⟨-, rfl⟩ := Prod.mk.inj (List.mem_singleton.mp hmem)
    rfl)⟩ rfl
  exact ⟨_, updates_isolated _ h₄⟩

/-- Transaction 3 updates a committed row, and transaction 4 sees the new value. -/
theorem update_seen_by_others :
    ¬ ∀ h : Writers Int Int, Reachable Writers.step (fun h a => CountsUp h.db a) .empty h →
      UpdatesIsolated (fun h a => CountsUp h.db a) h := by
  intro h
  have h₀ : Reachable Writers.step (fun h a => CountsUp h.db a) (.empty : Writers Int Int) .empty :=
    .init
  have h₁ := h₀.next (.createTable 0) trivial rfl
  have h₂ := h₁.next .start (by show (0 : Int) + 1 < maxTrxId; decide) rfl
  have h₃ := h₂.next (.insertRecord 1 0 7 firstSlots) trivial rfl
  have h₄ := h₃.next (.commit 1) (by show (1 : Int) + 1 < maxTrxId; decide) rfl
  have h₅ := h₄.next (.commitOperation 1) trivial rfl
  have h₆ := h₅.next .start (by show (2 : Int) + 1 < maxTrxId; decide) rfl
  have h₇ := h₆.next .start (by show (3 : Int) + 1 < maxTrxId; decide) rfl
  have h₈ := h₇.next (.update 3 0 setEight firstSlots) trivial rfl
  refine (h _ h₈).unseen (0, ⟨⟨1, 0⟩, by decide, by decide⟩) 3 _ 4 _ ⟨2, maxTrxId, 8⟩ ?_ rfl rfl rfl
    rfl (by decide) rfl (by decide)
  exact @Writers.note_changed _ ⟨2, maxTrxId, 7⟩ ⟨2, maxTrxId, 8⟩ _ _ (by decide)

end Miniob.Trx
