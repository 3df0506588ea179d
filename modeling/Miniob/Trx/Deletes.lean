/-
  Deleted rows.

  The end field says who has deleted a row: minus a transaction's identifier while the DELETE is
  pending, and its commit identifier afterwards.  `visit_record` lets a transaction write a row up
  to the end field, so that one that is older than a committed DELETE can delete the row once more:
  the first DELETE is lost, and gone for good when the older transaction rolls back.

  `Deletes` is what holds while statements only take up rows that nobody has deleted.
-/
import Miniob.Trx.Assertions

namespace Miniob.Trx

open Miniob.Common Miniob.Db Miniob.Storage

variable {D U : Type}

/-! ## The invariant -/

/-- The row at `l` is one that the transaction `T` has deleted. -/
def DeletedBy (T : Int) (x : MvccTrx) (l : Loc) (r : Row D) : Prop :=
  r.beginXid ≠ 0 ∧ (r.beginXid < 0 → r.beginXid = -T) ∧
    ((⟨.delete, l⟩ ∈ x.pending ∧ r.endXid = -T) ∨ x.phase = .committing r.endXid)

/-- Who has deleted which row, in every state that is reached. -/
structure Deletes (v : Versions D) : Prop where
  marks : Marks v
  sub : ∀ T x op, v.trx T = some x → op ∈ x.pending → op ∈ x.operations
  /-- An identifier is handed out once. -/
  ids : ∀ S T x y c, v.trx S = some x → x.phase = .committing c → v.trx T = some y →
    c ≠ T ∧ (y.phase = .committing c → S = T)
  /-- The hidden fields are both set, or none of them is. -/
  unset : ∀ l r, v.row l = some r → (r.beginXid = 0 ↔ r.endXid = 0)
  /-- A row of a delete is there, and it is deleted by this transaction. -/
  deleted : ∀ T x l, v.trx T = some x → x.phase ≠ .rollingBack → ⟨.delete, l⟩ ∈ x.operations →
    ∃ r, v.row l = some r ∧ DeletedBy T x l r
  /-- A mark of a transaction in `end_xid` belongs to one of its deletes. -/
  ended : ∀ l r, v.row l = some r → r.endXid < 0 →
    ∃ x, v.trx (-r.endXid) = some x ∧ ⟨.delete, l⟩ ∈ x.pending
  /-- A commit identifier in `end_xid` comes from a delete that is committed. -/
  stamped : ∀ l r, v.row l = some r → 0 < r.endXid → r.endXid = maxTrxId ∨
    ∃ T x, v.trx T = some x ∧ x.phase = .committing r.endXid ∧ ⟨.delete, l⟩ ∈ x.operations

/-- The steps keep the marks, and DELETE and UPDATE statements only take up rows that nobody else has
    deleted. -/
def KeepsDeletes (db : Database D U) (a : Action D U) : Prop :=
  KeepsMarks db a ∧ match a with
    | .deleteRecord T tid rid => ∀ r, db.row (tid, rid) = some r → Writable T r →
      r.endXid = maxTrxId ∨ r.endXid = -T
    | .update T tid stmt _ => ∀ l r, db.UpdateSelects T tid stmt l r → r.endXid = maxTrxId
    | _ => True

/-! ## Every step keeps it -/

section Step

variable {db : Database D U}

theorem Deletes.empty : Deletes (Database.empty : Database D U).versions where
  marks := Marks.empty
  sub _ _ _ h := nomatch h
  ids _ _ _ _ _ h := nomatch h
  unset _ _ h := nomatch h
  deleted _ _ _ h := nomatch h
  ended _ _ h := nomatch h
  stamped _ _ h := nomatch h

/-- A row that a transaction which does not roll back has deleted carries its identifiers. -/
theorem Deletes.endXid_eq (h : Deletes db.versions) {T : Int} {x : MvccTrx} {l : Loc} {r : Row D}
    (hx : db.trx T = some x) (hphase : x.phase ≠ .rollingBack) (hop : ⟨.delete, l⟩ ∈ x.operations)
    (hr : db.row l = some r) : DeletedBy T x l r := by
  obtain ⟨r', hr', hdel⟩ := h.deleted T x l hx hphase hop
  obtain rfl := Option.some.inj (hr.symm.trans hr')
  exact hdel

/-- Nobody who does not roll back has deleted a row whose end field is not set. -/
theorem Deletes.not_deleted (h : Deletes db.versions) {T : Int} {x : MvccTrx} {l : Loc} {r : Row D}
    (hr : db.row l = some r) (hend : r.endXid = maxTrxId) (hx : db.trx T = some x)
    (hphase : x.phase ≠ .rollingBack) : ⟨.delete, l⟩ ∉ x.operations := by
  intro hop
  have hpos := (h.marks.trx T x hx).pos
  obtain ⟨-, -, ⟨-, he⟩ | hc⟩ := h.endXid_eq hx hphase hop hr
  · unfold maxTrxId at hend
    omega
  · have hle := (h.marks.trx T x hx).commitLe _ hc
    have := h.marks.lt
    omega

/-- Only one transaction that does not roll back has deleted a row. -/
theorem Deletes.unique (h : Deletes db.versions) {S T : Int} {x y : MvccTrx} {l : Loc}
    (hx : db.trx S = some x) (hxp : x.phase ≠ .rollingBack) (hxd : ⟨.delete, l⟩ ∈ x.operations)
    (hy : db.trx T = some y) (hyp : y.phase ≠ .rollingBack) (hyd : ⟨.delete, l⟩ ∈ y.operations) :
    S = T := by
  obtain ⟨r, hr, -, -, hS⟩ := h.deleted S x l hx hxp hxd
  obtain ⟨-, -, hT⟩ := h.endXid_eq hy hyp hyd hr
  have hSpos := (h.marks.trx S x hx).pos
  have hTpos := (h.marks.trx T y hy).pos
  rcases hS with ⟨-, hS⟩ | hS
  · rcases hT with ⟨-, hT⟩ | hT
    · omega
    · have := (h.marks.trx T y hy).commitPos _ hT
      omega
  · rcases hT with ⟨-, hT⟩ | hT
    · have := (h.marks.trx S x hx).commitPos _ hS
      omega
    · exact (h.ids S T x y r.endXid hx hS hy).2 hT

/-- A transaction pushes or works off an operation, and the row of the operation changes. -/
theorem Deletes.change (h : Deletes db.versions) {T : Int} {x x' : MvccTrx} {l : Loc}
    {r' : Option (Row D)} (hmarks : Marks ((db.versions.setRow l r').setTrx T x'))
    (hx : db.trx T = some x) (hphase : x'.phase = x.phase)
    (hsub : ∀ op ∈ x'.pending, op ∈ x'.operations) (hops : ∀ op ∈ x.operations, op ∈ x'.operations)
    (hpending : ∀ l' ≠ l, ⟨.delete, l'⟩ ∈ x.pending → ⟨.delete, l'⟩ ∈ x'.pending)
    (hdel : ∀ l' ≠ l, ⟨.delete, l'⟩ ∈ x'.operations → ⟨.delete, l'⟩ ∈ x.operations)
    (hunset : ∀ r, r' = some r → (r.beginXid = 0 ↔ r.endXid = 0))
    (hown : x'.phase ≠ .rollingBack → ⟨.delete, l⟩ ∈ x'.operations →
      ∃ r, r' = some r ∧ DeletedBy T x' l r)
    (hothers : ∀ S y, S ≠ T → db.trx S = some y → y.phase ≠ .rollingBack →
      ⟨.delete, l⟩ ∈ y.operations → ∃ r, r' = some r ∧ DeletedBy S y l r)
    (hended : ∀ r, r' = some r → r.endXid < 0 →
      (-r.endXid = T ∧ ⟨.delete, l⟩ ∈ x'.pending) ∨ ∃ r₀, db.row l = some r₀ ∧
        r₀.endXid = r.endXid ∧ (⟨.delete, l⟩ ∈ x.pending → ⟨.delete, l⟩ ∈ x'.pending))
    (hstamped : ∀ r, r' = some r → 0 < r.endXid → r.endXid = maxTrxId ∨
      (x'.phase = .committing r.endXid ∧ ⟨.delete, l⟩ ∈ x'.operations) ∨
        ∃ r₀, db.row l = some r₀ ∧ r₀.endXid = r.endXid) :
    Deletes ((db.versions.setRow l r').setTrx T x') := by
  have hended' : ∀ l' r₀, db.row l' = some r₀ → r₀.endXid < 0 →
      (⟨.delete, l'⟩ ∈ x.pending → ⟨.delete, l'⟩ ∈ x'.pending) →
      ∃ y, ((db.versions.setRow l r').setTrx T x').trx (-r₀.endXid) = some y ∧
        ⟨.delete, l'⟩ ∈ y.pending := by
    intro l' r₀ hr₀ hneg hmono
    obtain ⟨y, hy, hmem⟩ := h.ended l' r₀ hr₀ hneg
    by_cases hS : -r₀.endXid = T
    · rw [hS] at hy ⊢
      obtain rfl := Option.some.inj (hx.symm.trans hy)
      exact ⟨x', Versions.setTrx_some.mpr (Or.inl ⟨rfl, rfl⟩), hmono hmem⟩
    · exact ⟨y, Versions.setTrx_some.mpr (Or.inr ⟨hS, hy⟩), hmem⟩
  have hstamped' : ∀ l' r₀, db.row l' = some r₀ → 0 < r₀.endXid → r₀.endXid = maxTrxId ∨
      ∃ S y, ((db.versions.setRow l r').setTrx T x').trx S = some y ∧
        y.phase = .committing r₀.endXid ∧ ⟨.delete, l'⟩ ∈ y.operations := by
    intro l' r₀ hr₀ hpos
    refine (h.stamped l' r₀ hr₀ hpos).imp_right ?_
    rintro ⟨S, y, hy, hc, hop⟩
    by_cases hS : S = T
    · subst hS
      obtain rfl := Option.some.inj (hx.symm.trans hy)
      exact ⟨S, x', Versions.setTrx_some.mpr (Or.inl ⟨rfl, rfl⟩), hphase.trans hc, hops _ hop⟩
    · exact ⟨S, y, Versions.setTrx_some.mpr (Or.inr ⟨hS, hy⟩), hc, hop⟩
  refine ⟨hmarks, ?_, ?_, ?_, ?_, ?_, ?_⟩
  · intro S y op hy hop
    rcases Versions.setTrx_some.mp hy with ⟨rfl, rfl⟩ | ⟨-, hy'⟩
    · exact hsub op hop
    · exact h.sub S y op hy' hop
  · intro S S' y y' c hy hc hy'
    -- the phases are the ones from before
    have hback : ∀ {S y}, ((db.versions.setRow l r').setTrx T x').trx S = some y →
        ∃ z, db.trx S = some z ∧ z.phase = y.phase := by
      intro S y hy
      rcases Versions.setTrx_some.mp hy with ⟨rfl, rfl⟩ | ⟨-, hy'⟩
      · exact ⟨x, hx, hphase.symm⟩
      · exact ⟨y, hy', rfl⟩
    obtain ⟨z, hz, hzc⟩ := hback hy
    obtain ⟨z', hz', hzc'⟩ := hback hy'
    rw [← hzc']
    exact h.ids S S' z z' c hz (hzc.trans hc) hz'
  · intro l' r hr
    rcases Versions.setRow_some.mp hr with ⟨rfl, hr'⟩ | ⟨-, hr'⟩
    · exact hunset r hr'
    · exact h.unset l' r hr'
  · intro S y l' hy hyp hop
    by_cases hl : l' = l
    · subst hl
      obtain ⟨r, hr, hdelBy⟩ : ∃ r, r' = some r ∧ DeletedBy S y l' r := by
        rcases Versions.setTrx_some.mp hy with ⟨rfl, rfl⟩ | ⟨hS, hy'⟩
        · exact hown hyp hop
        · exact hothers S y hS hy' hyp hop
      exact ⟨r, Versions.setRow_some.mpr (Or.inl ⟨rfl, hr⟩), hdelBy⟩
    · rcases Versions.setTrx_some.mp hy with ⟨rfl, rfl⟩ | ⟨hS, hy'⟩
      · rw [hphase] at hyp
        obtain ⟨r, hr, hb, hneg, hor⟩ := h.deleted S x l' hx hyp (hdel l' hl hop)
        refine ⟨r, Versions.setRow_some.mpr (Or.inr ⟨hl, hr⟩), hb, hneg, ?_⟩
        rw [hphase]
        exact hor.imp_left fun ⟨hmem, he⟩ => ⟨hpending l' hl hmem, he⟩
      · obtain ⟨r, hr, hdelBy⟩ := h.deleted S y l' hy' hyp hop
        exact ⟨r, Versions.setRow_some.mpr (Or.inr ⟨hl, hr⟩), hdelBy⟩
  · intro l' r hr hneg
    rcases Versions.setRow_some.mp hr with ⟨rfl, hr'⟩ | ⟨hl, hr'⟩
    · rcases hended r hr' hneg with ⟨hT, hmem⟩ | ⟨r₀, hr₀, he, hmono⟩
      · exact ⟨x', Versions.setTrx_some.mpr (Or.inl ⟨hT, rfl⟩), hmem⟩
      · rw [← he] at hneg ⊢
        exact hended' l' r₀ hr₀ hneg hmono
    · exact hended' l' r hr' hneg (hpending l' hl)
  · intro l' r hr hpos
    rcases Versions.setRow_some.mp hr with ⟨rfl, hr'⟩ | ⟨-, hr'⟩
    · rcases hstamped r hr' hpos with hmax | ⟨hc, hop⟩ | ⟨r₀, hr₀, he⟩
      · exact Or.inl hmax
      · exact Or.inr ⟨T, x', Versions.setTrx_some.mpr (Or.inl ⟨rfl, rfl⟩), hc, hop⟩
      · rw [← he] at hpos ⊢
        exact hstamped' l' r₀ hr₀ hpos
    · exact hstamped' l' r hr' hpos

theorem Deletes.start (h : Deletes db.versions) (hok : db.currentTrxId + 1 < maxTrxId)
    (hmarks : Marks ({ db.versions with currentTrxId := nextTrxId db.currentTrxId }.setTrx
      (nextTrxId db.currentTrxId) { operations := [], pending := [], phase := .active })) :
    Deletes ({ db.versions with currentTrxId := nextTrxId db.currentTrxId }.setTrx
      (nextTrxId db.currentTrxId) { operations := [], pending := [], phase := .active }) := by
  have hnonneg : 0 ≤ db.currentTrxId := h.marks.nonneg
  rw [nextTrxId_eq hnonneg hok] at hmarks ⊢
  -- the identifier of the new transaction is above all others
  have hold : ∀ {S y}, db.trx S = some y → S ≠ db.currentTrxId + 1 := fun {S y} hy heq => by
    have : S ≤ db.currentTrxId := (h.marks.trx S y hy).le
    omega
  refine ⟨hmarks, ?_, ?_, h.unset, ?_, ?_, ?_⟩
  -- the new transaction has no operations, so there is nothing to show of it
  · intro S y op hy hop
    rcases Versions.setTrx_some.mp hy with ⟨rfl, rfl⟩ | ⟨-, hy'⟩
    · exact hop
    · exact h.sub S y op hy' hop
  · intro S S' y y' c hy hc hy'
    rcases Versions.setTrx_some.mp hy with ⟨rfl, rfl⟩ | ⟨-, hy⟩
    · cases hc
    · rcases Versions.setTrx_some.mp hy' with ⟨rfl, rfl⟩ | ⟨-, hy'⟩
      · have : c ≤ db.currentTrxId := (h.marks.trx S y hy).commitLe c hc
        exact ⟨by omega, nofun⟩
      · exact h.ids S S' y y' c hy hc hy'
  · intro S y l hy hyp hop
    rcases Versions.setTrx_some.mp hy with ⟨rfl, rfl⟩ | ⟨-, hy'⟩
    · cases hop
    · exact h.deleted S y l hy' hyp hop
  · intro l r hr hneg
    obtain ⟨y, hy, hmem⟩ := h.ended l r hr hneg
    exact ⟨y, Versions.setTrx_some.mpr (Or.inr ⟨hold hy, hy⟩), hmem⟩
  · intro l r hr hpos
    refine (h.stamped l r hr hpos).imp_right ?_
    rintro ⟨S, y, hy, hrest⟩
    exact ⟨S, y, Versions.setTrx_some.mpr (Or.inr ⟨hold hy, hy⟩), hrest⟩

/-- A running transaction starts to commit or to roll back. -/
theorem Deletes.turn (h : Deletes db.versions) {T c : Int} {x x' : MvccTrx}
    (hmarks : Marks ({ db.versions with currentTrxId := c }.setTrx T x')) (hx : db.trx T = some x)
    (hphase : x.phase = .active) (hops : x'.operations = x.operations)
    (hpending : ∀ op, op ∈ x'.pending ↔ op ∈ x.pending)
    (hturn : x'.phase = .committing (db.currentTrxId + 1) ∨ x'.phase = .rollingBack) :
    Deletes ({ db.versions with currentTrxId := c }.setTrx T x') := by
  refine ⟨hmarks, ?_, ?_, h.unset, ?_, ?_, ?_⟩
  -- what is pending is among the operations
  · intro S y op hy hop
    rcases Versions.setTrx_some.mp hy with ⟨rfl, rfl⟩ | ⟨-, hy'⟩
    · rw [hops]
      exact h.sub S x op hx ((hpending op).mp hop)
    · exact h.sub S y op hy' hop
  -- identifiers of commits differ from one another and from those of transactions
  · intro S S' y y' k hy hk hy'
    rcases Versions.setTrx_some.mp hy with ⟨rfl, rfl⟩ | ⟨hS, hy₀⟩
    · -- the commit identifier is a new one
      obtain rfl : k = db.currentTrxId + 1 := by
        rcases hturn with hc | hr
        · exact (Phase.committing.inj (hc.symm.trans hk)).symm
        · cases hr.symm.trans hk
      have hnew : ∀ {S' y'}, db.trx S' = some y' → S' ≤ db.currentTrxId ∧
          y'.phase ≠ .committing (db.currentTrxId + 1) := by
        intro S' y' hy'
        refine ⟨(h.marks.trx S' y' hy').le, fun hc => ?_⟩
        have : db.currentTrxId + 1 ≤ db.currentTrxId := (h.marks.trx S' y' hy').commitLe _ hc
        omega
      rcases Versions.setTrx_some.mp hy' with ⟨rfl, rfl⟩ | ⟨-, hy'⟩
      · have := (hnew hx).1
        exact ⟨by omega, fun _ => rfl⟩
      · have := (hnew hy').1
        exact ⟨by omega, fun hc => absurd hc (hnew hy').2⟩
    · rcases Versions.setTrx_some.mp hy' with ⟨rfl, rfl⟩ | ⟨-, hy'⟩
      · refine ⟨(h.ids S S' y x k hy₀ hk hx).1, fun hk' => ?_⟩
        rcases hturn with hc | hr
        · obtain rfl := Phase.committing.inj (hc.symm.trans hk')
          have : db.currentTrxId + 1 ≤ db.currentTrxId := (h.marks.trx S y hy₀).commitLe _ hk
          omega
        · cases hr.symm.trans hk'
      · exact h.ids S S' y y' k hy₀ hk hy'
  -- a row that a transaction has deleted carries its mark or its commit identifier
  · intro S y l hy hyp hop
    rcases Versions.setTrx_some.mp hy with ⟨rfl, rfl⟩ | ⟨-, hy'⟩
    · rw [hops] at hop
      obtain ⟨r, hr, hb, hneg, hor⟩ := h.deleted S x l hx (by rw [hphase]; nofun) hop
      refine ⟨r, hr, hb, hneg, Or.inl ?_⟩
      rcases hor with ⟨hmem, he⟩ | hc
      · exact ⟨(hpending _).mpr hmem, he⟩
      · cases hphase.symm.trans hc
    · exact h.deleted S y l hy' hyp hop
  -- a negative end field names a transaction with the DELETE pending
  · intro l r hr hneg
    obtain ⟨y, hy, hmem⟩ := h.ended l r hr hneg
    by_cases hS : -r.endXid = T
    · rw [hS] at hy ⊢
      obtain rfl := Option.some.inj (hx.symm.trans hy)
      exact ⟨x', Versions.setTrx_some.mpr (Or.inl ⟨rfl, rfl⟩), (hpending _).mpr hmem⟩
    · exact ⟨y, Versions.setTrx_some.mpr (Or.inr ⟨hS, hy⟩), hmem⟩
  -- a commit identifier in the end field is that of a transaction that has deleted the row
  · intro l r hr hpos
    refine (h.stamped l r hr hpos).imp_right ?_
    rintro ⟨S, y, hy, hc, hop⟩
    by_cases hS : S = T
    · subst hS
      obtain rfl := Option.some.inj (hx.symm.trans hy)
      cases hphase.symm.trans hc
    · exact ⟨S, y, Versions.setTrx_some.mpr (Or.inr ⟨hS, hy⟩), hc, hop⟩

theorem Deletes.insert (h : Deletes db.versions) {T : Int} {x : MvccTrx} {l : Loc} {data : D}
    (hx : db.trx T = some x) (hphase : x.phase = .active) (hfree : db.row l = none) :
    Deletes ((db.versions.setRow l (some ⟨-T, maxTrxId, data⟩)).setTrx T
      (x.push ⟨.insert, l⟩)) := by
  have hT := (h.marks.trx T x hx).pos
  -- no transaction that counts has deleted from a place that was free
  have hnot : ∀ {S y}, db.trx S = some y → y.phase ≠ .rollingBack →
      ⟨.delete, l⟩ ∉ y.operations := fun {S y} hy hyp hop => by
    obtain ⟨r, hr, -⟩ := h.deleted S y l hy hyp hop
    cases hfree.symm.trans hr
  -- the new operation is an insert, so the deletes are the same
  have hpush : ∀ {l' : Loc} {ops : List Operation}, ⟨.delete, l'⟩ ∈ ops ++ [⟨.insert, l⟩] →
      ⟨.delete, l'⟩ ∈ ops := by
    intro l' ops hop
    rcases List.mem_append.mp hop with hop | hop
    · exact hop
    · cases List.mem_singleton.mp hop
  refine h.change (h.marks.insert hx hphase hfree) hx rfl ?_ ?_ ?_ ?_ ?_ ?_ ?_ ?_ ?_
  · intro op hop
    rcases List.mem_append.mp hop with hop | hop
    · exact List.mem_append_left _ (h.sub T x op hx hop)
    · exact List.mem_append_right _ hop
  · exact fun op hop => List.mem_append_left _ hop
  · exact fun l' _ hop => List.mem_append_left _ hop
  · exact fun l' _ hop => hpush hop
  · intro r hr
    obtain rfl := Option.some.inj hr
    exact iff_of_false (by show -T ≠ 0; omega) (by show maxTrxId ≠ 0; decide)
  -- from here on, the row that is new
  · exact fun hp hop => absurd (hpush hop) (hnot hx hp)
  · exact fun S y _ hy hyp hop => absurd hop (hnot hy hyp)
  · intro r hr hneg
    obtain rfl := Option.some.inj hr
    exact absurd hneg (by show ¬ maxTrxId < 0; decide)
  · intro r hr _
    obtain rfl := Option.some.inj hr
    exact Or.inl rfl

theorem Deletes.delete (h : Deletes db.versions) {T : Int} {x : MvccTrx} {l : Loc} {r : Row D}
    (hx : db.trx T = some x) (hphase : x.phase = .active) (hr : db.row l = some r)
    (hw : Writable T r) (hend : r.endXid = maxTrxId ∨ r.endXid = -T) :
    Deletes ((db.versions.setRow l (some { r with endXid := -T })).setTrx T
      (x.push ⟨.delete, l⟩)) := by
  have hT := (h.marks.trx T x hx).pos
  -- the row is not one that LOAD DATA has stored: its end field is no 0
  have hne : r.beginXid ≠ 0 := fun hb => by
    have := (h.unset l r hr).mp hb
    unfold maxTrxId at hend
    omega
  have hneg : r.beginXid < 0 → r.beginXid = -T := fun hb => by
    rcases writable_iff.mp hw with ⟨h1, -⟩ | ⟨-, h2⟩ | ⟨h1, -⟩ <;> omega
  refine h.change (h.marks.delete hx hphase hr hw) hx rfl ?_ ?_ ?_ ?_ ?_ ?_ ?_ ?_ ?_
  · intro op hop
    rcases List.mem_append.mp hop with hop | hop
    · exact List.mem_append_left _ (h.sub T x op hx hop)
    · exact List.mem_append_right _ hop
  · exact fun op hop => List.mem_append_left _ hop
  · exact fun l' _ hop => List.mem_append_left _ hop
  · intro l' hl hop
    rcases List.mem_append.mp hop with hop | hop
    · exact hop
    · obtain rfl := (Operation.mk.inj (List.mem_singleton.mp hop)).2
      exact absurd rfl hl
  -- neither field of the row is 0
  · intro r' hr'
    obtain rfl := Option.some.inj hr'
    exact iff_of_false hne (by show -T ≠ 0; omega)
  · exact fun _ _ => ⟨_, rfl, hne, hneg, Or.inl ⟨List.mem_append_right _ (by simp), rfl⟩⟩
  -- no other transaction has deleted the row: its end field would be marked or stamped
  · intro S y hS hy hyp hop
    rcases hend with hmax | hown
    · exact absurd hop (h.not_deleted hr hmax hy hyp)
    · -- the end mark names T, not S
      exfalso
      obtain ⟨-, -, ⟨-, he⟩ | hc⟩ := h.endXid_eq hy hyp hop hr
      · omega
      · have := (h.marks.trx S y hy).commitPos _ hc
        omega
  -- the mark names this transaction, which has the DELETE pending
  · intro r' hr' _
    obtain rfl := Option.some.inj hr'
    exact Or.inl ⟨by show - -T = T; omega, List.mem_append_right _ (by simp)⟩
  · intro r' hr' hpos
    obtain rfl := Option.some.inj hr'
    exact absurd hpos (by show ¬ 0 < -T; omega)

/-- The first operation is worked off when committing. -/
theorem Deletes.commitOperation (h : Deletes db.versions) {T c : Int}
    {operations pending : List Operation} {op : Operation} {r : Row D}
    (hx : db.trx T = some ⟨operations, op :: pending, .committing c⟩) (hr : db.row op.loc = some r)
    (hxid : op.xid r = -T)
    (hmarks : Marks ((db.versions.setRow op.loc (some (op.setXid c r))).setTrx T
      ⟨operations, pending, .committing c⟩)) :
    Deletes ((db.versions.setRow op.loc (some (op.setXid c r))).setTrx T
      ⟨operations, pending, .committing c⟩) := by
  have hxok := h.marks.trx T _ hx
  have hT := hxok.pos
  have hc := hxok.commitPos c rfl
  -- the row's mark becomes the commit identifier; all else is as it was
  obtain ⟨type, l⟩ := op
  refine h.change hmarks hx rfl ?_ (fun _ hop => hop) ?_ (fun _ _ hop => hop) ?_ ?_ ?_ ?_ ?_
  · intro op hop
    have hmem := h.sub T _ op hx (List.mem_cons_of_mem _ hop)
    exact hmem
  · intro l' hl hop
    rcases List.mem_cons.mp hop with heq | hop
    · exact absurd (Operation.mk.inj heq).2 hl
    · exact hop
  -- neither field of the row becomes 0
  · intro r' hr'
    obtain rfl := Option.some.inj hr'
    have hunset := h.unset l r hr
    cases type with
    | insert =>
      replace hxid : r.beginXid = -T := hxid
      exact iff_of_false (by show c ≠ 0; omega) (by show r.endXid ≠ 0; omega)
    | delete =>
      replace hxid : r.endXid = -T := hxid
      exact iff_of_false (by show r.beginXid ≠ 0; omega) (by show c ≠ 0; omega)
  -- a DELETE that is worked off is stamped, an INSERT leaves the end field
  · intro hp hop
    obtain ⟨hb, hneg, hor⟩ := h.endXid_eq hx hp hop hr
    refine ⟨_, rfl, ?_⟩
    cases type with
    | insert =>
      refine ⟨by show c ≠ 0; omega, fun hlt => absurd hlt (by show ¬ c < 0; omega), ?_⟩
      refine hor.imp_left fun ⟨hmem, he⟩ => ⟨?_, he⟩
      rcases List.mem_cons.mp hmem with heq | hmem
      · cases heq
      · exact hmem
    | delete => exact ⟨hb, hneg, Or.inr rfl⟩
  -- a row that another transaction has deleted is not marked by this one
  · intro S y hS hy hyp hop
    obtain ⟨hb, hneg, hor⟩ := h.endXid_eq hy hyp hop hr
    cases type with
    | insert =>
      replace hxid : r.beginXid = -T := hxid
      have := hneg (by omega)
      exact absurd (by omega) hS
    | delete =>
      replace hxid : r.endXid = -T := hxid
      rcases hor with ⟨-, he⟩ | hc'
      · exact absurd (by omega) hS
      · have := (h.marks.trx S y hy).commitPos _ hc'
        omega
  -- behind an INSERT the end field is what it was, and behind a DELETE it is positive
  · intro r' hr' hneg
    obtain rfl := Option.some.inj hr'
    cases type with
    | insert =>
      refine Or.inr ⟨r, hr, rfl, fun hmem => ?_⟩
      rcases List.mem_cons.mp hmem with heq | hmem
      · cases heq
      · exact hmem
    | delete => exact absurd hneg (by show ¬ c < 0; omega)
  -- the stamp is that of this transaction
  · intro r' hr' _
    obtain rfl := Option.some.inj hr'
    cases type with
    | insert => exact Or.inr (Or.inr ⟨r, hr, rfl⟩)
    | delete =>
      have hmem := h.sub T _ ⟨.delete, l⟩ hx (by simp)
      exact Or.inr (Or.inl ⟨rfl, hmem⟩)

/-- The first operation is worked off when rolling back. -/
theorem Deletes.undo (h : Deletes db.versions) {T : Int} {operations pending : List Operation}
    {op : Operation} {r : Row D} {r' : Option (Row D)}
    (hx : db.trx T = some ⟨operations, op :: pending, .rollingBack⟩) (hr : db.row op.loc = some r)
    (hxid : op.xid r = -T) (hr' : (op.type = .insert ∧ r' = none) ∨
      (op.type = .delete ∧ r' = some { r with endXid := maxTrxId }))
    (hmarks : Marks ((db.versions.setRow op.loc r').setTrx T ⟨operations, pending, .rollingBack⟩)) :
    Deletes ((db.versions.setRow op.loc r').setTrx T ⟨operations, pending, .rollingBack⟩) := by
  have hT := (h.marks.trx T _ hx).pos
  refine h.change hmarks hx rfl ?_ (fun _ hop => hop) ?_ (fun _ _ hop => hop) ?_ ?_ ?_ ?_ ?_
  · intro op' hop
    have hmem := h.sub T _ op' hx (List.mem_cons_of_mem op hop)
    exact hmem
  · intro l' hl hop
    rcases List.mem_cons.mp hop with heq | hop
    · exact absurd (congrArg Operation.loc heq) hl
    · exact hop
  -- undoing an INSERT leaves no row, and undoing a DELETE clears the end field
  · intro r₁ hr₁
    rcases hr' with ⟨-, rfl⟩ | ⟨htype, rfl⟩
    · cases hr₁
    · obtain rfl := Option.some.inj hr₁
      rw [Operation.xid_delete htype] at hxid
      have := h.unset op.loc r hr
      exact iff_of_false (by show r.beginXid ≠ 0; omega) (by show maxTrxId ≠ 0; decide)
  -- a transaction that rolls back has no deletes to answer for
  · exact fun hp => absurd rfl hp
  · -- the row is not one that another transaction has deleted
    intro S y hS hy hyp hop
    obtain ⟨-, hneg, hor⟩ := h.endXid_eq hy hyp hop hr
    rcases hr' with ⟨htype, -⟩ | ⟨htype, -⟩
    · rw [Operation.xid_insert htype] at hxid
      have := hneg (by omega)
      exact absurd (by omega) hS
    · rw [Operation.xid_delete htype] at hxid
      rcases hor with ⟨-, he⟩ | hc
      · exact absurd (by omega) hS
      · have := (h.marks.trx S y hy).commitPos _ hc
        omega
  -- the end field is not negative any more
  · intro r₁ hr₁ hneg
    rcases hr' with ⟨-, rfl⟩ | ⟨-, rfl⟩
    · cases hr₁
    · obtain rfl := Option.some.inj hr₁
      exact absurd hneg (by show ¬ maxTrxId < 0; decide)
  · intro r₁ hr₁ _
    rcases hr' with ⟨-, rfl⟩ | ⟨-, rfl⟩
    · cases hr₁
    · obtain rfl := Option.some.inj hr₁
      exact Or.inl rfl

/-- Rows that nobody has deleted come and go. -/
theorem Deletes.rewrite (h : Deletes db.versions) {f : Loc → Option (Row D)}
    (hmarks : Marks { db.versions with row := f })
    (hrow : ∀ l, f l = db.row l ∨
      ((db.row l = none ∨ ∃ r, db.row l = some r ∧ r.endXid = maxTrxId) ∧
        ∀ r, f l = some r → r.endXid = maxTrxId ∧ r.beginXid ≠ 0 ∨
          r.beginXid = 0 ∧ r.endXid = 0)) :
    Deletes { db.versions with row := f } := by
  refine ⟨hmarks, h.sub, h.ids, ?_, ?_, ?_, ?_⟩
  -- a row that is new has both fields or none
  · intro l r hr
    rcases hrow l with heq | ⟨-, hnew⟩
    · exact h.unset l r (heq.symm.trans hr)
    · rcases hnew r hr with ⟨hmax, hne⟩ | ⟨hb, he⟩
      · exact iff_of_false hne (by rw [hmax]; decide)
      · exact iff_of_true hb he
  -- the rows of deletes have not been written
  · intro S y l hy hyp hop
    obtain ⟨r, hr, hdel⟩ := h.deleted S y l hy hyp hop
    rcases hrow l with heq | ⟨hnone | ⟨r₁, hr₁, hmax⟩, -⟩
    · exact ⟨r, heq.trans hr, hdel⟩
    · cases hnone.symm.trans hr
    · exact absurd hop (h.not_deleted hr₁ hmax hy hyp)
  · intro l r hr hneg
    rcases hrow l with heq | ⟨-, hnew⟩
    · exact h.ended l r (heq.symm.trans hr) hneg
    · have := hnew r hr
      unfold maxTrxId at this
      omega
  · intro l r hr hpos
    rcases hrow l with heq | ⟨-, hnew⟩
    · exact h.stamped l r (heq.symm.trans hr) hpos
    · rcases hnew r hr with ⟨hmax, -⟩ | ⟨-, he⟩
      · exact Or.inl hmax
      · omega

/-- **Step.** -/
theorem Deletes.step {a : Action D U} {v' : Versions D} (h : Deletes db.versions)
    (hok : KeepsDeletes db a) (hstep : RowStep db a v') : Deletes v' := by
  have hmarks := h.marks.step hok.1 hstep
  cases hstep with
  | start => exact h.start hok.1 hmarks
  | insert hx hphase hfree => exact h.insert hx hphase hfree
  | delete hx hphase hr hw => exact h.delete hx hphase hr hw (hok.2 _ hr hw)
  -- both ends keep what is pending, `rollback` in the opposite order
  | @commit T x hx hphase =>
    have hnext : nextTrxId db.currentTrxId = db.currentTrxId + 1 := nextTrxId_eq h.marks.nonneg hok.1
    refine h.turn hmarks hx hphase rfl (fun _ => Iff.rfl) (Or.inl ?_)
    rw [← hnext]
  | commitOperation hx hr hxid => exact h.commitOperation hx hr hxid hmarks
  | @rollback T x hx hphase =>
    refine h.turn (c := db.currentTrxId) hmarks hx hphase rfl (fun op => ?_) (Or.inr rfl)
    show op ∈ x.operations.reverse ↔ _
    rw [List.mem_reverse, (h.marks.trx T x hx).active hphase]
  | @undoInsert T operations pending op r hx htype hr =>
    obtain ⟨r', hr', hxid⟩ := h.marks.marked T _ op hx (by simp) (Or.inl htype)
    exact h.undo hx hr' hxid (Or.inl ⟨htype, rfl⟩) hmarks
  | @undoDelete T operations pending op r hx htype hr hend =>
    refine h.undo hx hr ?_ (Or.inr ⟨htype, rfl⟩) hmarks
    rw [Operation.xid_delete htype]
    exact hend
  -- an UPDATE takes up rows that nobody has deleted, and the new ones have their fields
  | @update T tid stmt p row' hx hrow =>
    refine h.rewrite hmarks fun l => (hrow l).imp_right ?_
    rintro ⟨hold, hnew⟩
    refine ⟨hold.imp_right fun ⟨r, hs⟩ => ⟨r, hs.row.1, hok.2 l r hs⟩, fun r hr => Or.inl ?_⟩
    rcases hnew with hnone | ⟨r₁, hr₁, l₀, r₀, hs, hb, he⟩
    · cases hnone.symm.trans hr
    · obtain rfl := Option.some.inj (hr₁.symm.trans hr)
      have hmax := hok.2 l₀ r₀ hs
      refine ⟨he.trans hmax, fun hzero => ?_⟩
      have := (h.unset l₀ r₀ hs.row.1).mp (hb.symm.trans hzero)
      unfold maxTrxId at hmax
      omega
  -- rows that are made go where there were none, with both fields 0
  | @made tid rid data p hfree =>
    refine h.rewrite (f := (db.versions.setRow (tid, rid) (some ⟨0, 0, data⟩)).row) hmarks
      fun l => ?_
    rw [Versions.setRow_row]
    by_cases hl : l = (tid, rid)
    · subst hl
      rw [if_pos rfl]
      refine Or.inr ⟨Or.inl hfree, fun r hr => ?_⟩
      obtain rfl := Option.some.inj hr
      exact Or.inr ⟨rfl, rfl⟩
    · exact Or.inl (if_neg hl)
  | idle => exact h

end Step

/-- **Run.** -/
theorem deletes_of_reachable {ok : Database D U → Action D U → Prop}
    (himp : ∀ db a, ok db a → KeepsDeletes db a) {db : Database D U}
    (h : Reachable Database.step ok .empty db) : Deletes db.versions :=
  h.invariant (I := fun db => Deletes db.versions) Deletes.empty
    fun _ _ _ _ hdb hok hstep => hdb.step (himp _ _ hok) (Database.step_rowStep hstep)

/-! ## No delete is lost -/

/-- No two transactions have deleted one row, save those that roll back, and a row whose DELETE has
    been committed is invisible to whoever starts afterwards. -/
def NoLostDelete (db : Database D U) : Prop :=
  (∀ l S T x y, db.trx S = some x → x.phase ≠ .rollingBack → ⟨.delete, l⟩ ∈ x.operations →
    db.trx T = some y → y.phase ≠ .rollingBack → ⟨.delete, l⟩ ∈ y.operations → S = T) ∧
  ∀ l S x c, db.trx S = some x → x.phase = .committing c → x.pending = [] →
    ⟨.delete, l⟩ ∈ x.operations → ∀ T, c < T → ∀ r, db.row l = some r → ¬ Visible T r

/-- A row with a commit identifier in its end field. -/
theorem not_visible_of_deleted {c T : Int} {r : Row D} (hend : r.endXid = c) (hc : 0 < c) (hlt : c < T)
    (hb : 0 < r.beginXid) : ¬ Visible T r := by
  rw [visible_iff]
  omega

/-- **Headline.**  In a run in which DELETE and UPDATE statements only take up rows that nobody else has
    deleted, no DELETE is lost. -/
theorem no_lost_delete (db : Database D U) (h : Reachable Database.step KeepsDeletes .empty db) :
    NoLostDelete db := by
  have hdb := deletes_of_reachable (fun _ _ hok => hok) h
  constructor
  · intro l S T x y hx hxp hxd hy hyp hyd
    exact hdb.unique hx hxp hxd hy hyp hyd
  · intro l S x c hx hc hdone hop T hlt r hr
    have hcpos := (hdb.marks.trx S x hx).commitPos c hc
    obtain ⟨hne, hneg, ⟨hmem, -⟩ | hc'⟩ := hdb.endXid_eq hx (by rw [hc]; nofun) hop hr
    · rw [hdone] at hmem
      cases hmem
    · refine not_visible_of_deleted (Phase.committing.inj (hc'.symm.trans hc)) hcpos hlt ?_
      -- the INSERT of the row is not pending, for its transaction would be S
      by_contra hb
      have hlt' : r.beginXid < 0 := by omega
      obtain ⟨z, hz, hmem⟩ := hdb.marks.owner l r hr hlt'
      rw [hneg hlt', Int.neg_neg] at hz
      obtain rfl := Option.some.inj (hx.symm.trans hz)
      rw [hdone] at hmem
      cases hmem

/-- A committed row and its committed deletion. -/
theorem no_lost_delete_one : ∃ db : Database Int Int,
    db.row (0, ⟨⟨1, 0⟩, by decide, by decide⟩) = some ⟨2, 4, 7⟩ ∧ NoLostDelete db := by
  have h₀ : Reachable Database.step KeepsDeletes (.empty : Database Int Int) .empty := .init
  have h₁ := h₀.next (.createTable 0) ⟨trivial, trivial⟩ rfl
  have h₂ := h₁.next .start ⟨by show (0 : Int) + 1 < maxTrxId; decide, trivial⟩ rfl
  have h₃ := h₂.next (.insertRecord 1 0 7 firstSlots) ⟨trivial, trivial⟩ rfl
  have h₄ := h₃.next (.commit 1) ⟨by show (1 : Int) + 1 < maxTrxId; decide, trivial⟩ rfl
  have h₅ := h₄.next (.commitOperation 1) ⟨trivial, trivial⟩ rfl
  have h₆ := h₅.next .start ⟨by show (2 : Int) + 1 < maxTrxId; decide, trivial⟩ rfl
  have h₇ := h₆.next (.deleteRecord 3 0 ⟨⟨1, 0⟩, by decide, by decide⟩)
    ⟨trivial, fun r hr _ => by obtain rfl := Option.some.inj hr; exact Or.inl rfl⟩ rfl
  have h₈ := h₇.next (.commit 3) ⟨by show (3 : Int) + 1 < maxTrxId; decide, trivial⟩ rfl
  have h₉ := h₈.next (.commitOperation 3) ⟨trivial, trivial⟩ rfl
  exact ⟨_, rfl, no_lost_delete _ h₉⟩

/-- Transaction 3 is older than the committed DELETE of transaction 4, deletes the row once more and
    rolls back: transaction 6 sees the row again. -/
theorem older_delete_resurrects :
    ¬ ∀ db : Database Int Int, Reachable Database.step KeepsMarks .empty db → NoLostDelete db := by
  intro h
  have h₀ : Reachable Database.step KeepsMarks (.empty : Database Int Int) .empty := .init
  have h₁ := h₀.next (.createTable 0) trivial rfl
  have h₂ := h₁.next .start (by show (0 : Int) + 1 < maxTrxId; decide) rfl
  have h₃ := h₂.next (.insertRecord 1 0 7 firstSlots) trivial rfl
  have h₄ := h₃.next (.commit 1) (by show (1 : Int) + 1 < maxTrxId; decide) rfl
  have h₅ := h₄.next (.commitOperation 1) trivial rfl
  have h₆ := h₅.next .start (by show (2 : Int) + 1 < maxTrxId; decide) rfl
  have h₇ := h₆.next .start (by show (3 : Int) + 1 < maxTrxId; decide) rfl
  have h₈ := h₇.next (.deleteRecord 4 0 ⟨⟨1, 0⟩, by decide, by decide⟩) trivial rfl
  have h₉ := h₈.next (.commit 4) (by show (4 : Int) + 1 < maxTrxId; decide) rfl
  have h₁₀ := h₉.next (.commitOperation 4) trivial rfl
  have h₁₁ := h₁₀.next (.deleteRecord 3 0 ⟨⟨1, 0⟩, by decide, by decide⟩) trivial rfl
  have h₁₂ := h₁₁.next (.rollback 3) trivial rfl
  have h₁₃ := h₁₂.next (.rollbackOperation 3) trivial rfl
  have hlost := (h _ h₁₃).2 (0, ⟨⟨1, 0⟩, by decide, by decide⟩) 4 _ 5 rfl rfl rfl (by decide) 6
    (by decide) ⟨2, maxTrxId, 7⟩ rfl
  exact hlost (by decide)

end Miniob.Trx
