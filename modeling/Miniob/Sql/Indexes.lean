/-
  What a refused INSERT does to the indexes, as later transactions see them.

  The rows that went in before have their entries in every index; marking the rows as deleted leaves the
  entries.  The refusal itself may take an entry out of the indexes that refuse the row, up to the first one that
  does not (`SecondPass`).  So a unique index refuses the same rows as before only if neither has happened, or both
  have happened to the same entry (`Plus.refuses_iff_same`, `Plus.refuses_iff_removed`).
-/
import Miniob.Sql.Statement
import Miniob.Trx.Rollback

namespace Miniob.Sql

open Miniob.Common Miniob.Db Miniob.Index Miniob.Storage Miniob.Trx TableIndex

variable {D U : Type}

/-! ## The second pass, index by index -/

/-- The indexes from the first one to the one at `n` refuse the record; then the second pass takes an entry out of each
    of them. -/
def RefusedUpTo (record : D) (rid : RecordId) (is : List (TableIndex D U)) (n : Nat) : Prop :=
  ∀ m ≤ n, ∀ i ∈ is[m]?, i.Rejects record rid

theorem secondPass_getElem? {record : D} {rid : RecordId} {is is' : List (TableIndex D U)}
    (h : SecondPass record rid is is') : is.length = is'.length ∧
      ∀ n i i', is[n]? = some i → is'[n]? = some i' →
        (RefusedUpTo record rid is n ∧ Removed record rid i i') ∨
          (¬ RefusedUpTo record rid is n ∧ SameEntries i i') := by
  induction h with
  | @stop is is' hhead hsame =>
    obtain ⟨hlen, hall⟩ := forall₂_iff_getElem?.mp hsame
    refine ⟨hlen, fun n i i' hi hi' => Or.inr ⟨fun href => ?_, hall n i i' hi hi'⟩⟩
    cases is with
    | nil => cases hi
    | cons j rest => exact hhead j rfl (href 0 (Nat.zero_le n) j rfl)
  | @removed j j' rest rest' hj _ ih =>
    obtain ⟨hlen, hall⟩ := ih
    refine ⟨congrArg (· + 1) hlen, fun n i i' hi hi' => ?_⟩
    -- the first index refuses, so only those behind it matter
    have hcons : ∀ k, RefusedUpTo record rid (j :: rest) (k + 1) ↔ RefusedUpTo record rid rest k := by
      intro k
      constructor
      · exact fun href m hm i hi => href (m + 1) (by omega) i hi
      · intro href m hm i hi
        cases m with
        | zero =>
          obtain rfl := Option.some.inj hi
          exact hj.rejects
        | succ m => exact href m (by omega) i hi
    cases n with
    | zero =>
      obtain rfl := Option.some.inj hi
      obtain rfl := Option.some.inj hi'
      refine Or.inl ⟨fun m hm i hi => ?_, hj⟩
      obtain rfl := Nat.le_zero.mp hm
      obtain rfl := Option.some.inj hi
      exact hj.rejects
    | succ n =>
      rw [hcons]
      exact hall n i i' hi hi'

/-! ## What an index refuses -/

section Refuses

variable {own : RecordId → Option D} {i₀ i₁ i₂ : TableIndex D U} {record : D} {rid : RecordId}

/-- An entry that has been added is refused now, and was not before. -/
theorem plus_refuses (h : Plus own i₀ i₁) {rid₁ : RecordId} {d₁ : D} (hown : own rid₁ = some d₁) :
    ¬ i₀.Rejects d₁ rid₁ := by
  obtain ⟨hdef, es₀, es, h₀, hes, hfresh, hmem⟩ := h
  rw [h₀.rejects_iff]
  rintro ⟨e, he, heq⟩
  have hentry : i₀.entry d₁ rid₁ ∈ es := (hmem _).mpr (Or.inr ⟨rid₁, d₁, hown, rfl⟩)
  have hsame : e = i₀.entry d₁ rid₁ := by
    refine hes.eq_of_cmp ((hmem e).mpr (Or.inl he)) hentry ?_
    rw [hdef.cmp]
    exact heq
  exact hfresh rid₁ d₁ hown (hsame ▸ he)

/-- The index with the entries in addition. -/
theorem plus_refuses_iff_same (h : Plus own i₀ i₁) (hsame : SameEntries i₁ i₂) :
    (∀ d rid, i₂.Rejects d rid ↔ i₀.Rejects d rid) ↔ ∀ rid, own rid = none := by
  constructor
  · intro hrej rid
    by_contra hown
    obtain ⟨d, hown⟩ := Option.ne_none_iff_exists'.mp hown
    refine plus_refuses h hown ((hrej d rid).mp ((hsame.rejects_iff d rid).mpr ?_))
    obtain ⟨es, hes, hmem⟩ := h.holds hown
    exact ⟨es, hes, _, hmem, hes.compare_self _⟩
  · intro hown d rid
    exact ((h.sameEntries hown).trans hsame).rejects_iff d rid

/-- The one entry that has been added is taken out again. -/
theorem plus_removed_same (h : Plus own i₀ i₁) (hremoved : Removed record rid i₁ i₂) {rid₁ : RecordId} {d₁ : D}
    (hown : own rid₁ = some d₁) (honly : ∀ rid', own rid' ≠ none → rid' = rid₁)
    (heq₁ : i₀.cmp (i₀.entry d₁ rid₁).1 (i₀.entry record rid).1 = .eq) : SameEntries i₀ i₂ := by
  obtain ⟨hdef, es₀, es, h₀, hes, hfresh, hmem⟩ := h
  obtain ⟨hdef₂, es₁, es₂, e, h₁, h₂, he, heq, hmem₂⟩ := hremoved
  obtain rfl := hes.unique h₁
  rw [hdef.cmp, hdef.entry] at heq
  have hordered := h₀.ordered
  have hentry : e = i₀.entry d₁ rid₁ := by
    refine hes.eq_of_cmp he ((hmem _).mpr (Or.inr ⟨rid₁, d₁, hown, rfl⟩)) ?_
    rw [hdef.cmp]
    exact Std.TransCmp.eq_trans heq (Std.OrientedCmp.eq_symm heq₁)
  have hsame : es₀ = es₂ := by
    refine h₀.eq_of_mem_iff (hdef.trans hdef₂) h₂ fun x => ?_
    rw [hmem₂, hmem, hentry]
    constructor
    · exact fun hx => ⟨Or.inl hx, fun hxe => hfresh rid₁ d₁ hown (hxe ▸ hx)⟩
    · rintro ⟨hx | ⟨rid₂, d₂, hown₂, rfl⟩, hne⟩
      · exact hx
      · obtain rfl := honly rid₂ (by rw [hown₂]; nofun)
        obtain rfl := Option.some.inj (hown.symm.trans hown₂)
        exact absurd rfl hne
  exact ⟨hdef.trans hdef₂, es₀, h₀, hsame ▸ h₂⟩

/-- The index with the entries in addition, and without the one that is equal to a new record. -/
theorem plus_refuses_iff_removed (h : Plus own i₀ i₁) (hremoved : Removed record rid i₁ i₂) :
    (∀ d rid', i₂.Rejects d rid' ↔ i₀.Rejects d rid') ↔
      ∃ rid₁ d₁, own rid₁ = some d₁ ∧ (∀ rid', own rid' ≠ none → rid' = rid₁) ∧
        i₀.cmp (i₀.entry d₁ rid₁).1 (i₀.entry record rid).1 = .eq := by
  constructor
  · intro hrej
    obtain ⟨hdef, es₀, es, h₀, hes, hfresh, hmem⟩ := id h
    obtain ⟨hdef₂, es₁, es₂, e, h₁, h₂, he, heq, hmem₂⟩ := hremoved
    obtain rfl := hes.unique h₁
    rw [hdef.cmp, hdef.entry] at heq
    have hordered := h₀.ordered
    -- the entry that is gone is one of those in addition
    have hnew : e ∉ es₀ := by
      intro hold
      have hgone : i₂.Rejects record rid := (hrej record rid).mpr ((h₀.rejects_iff _ _).mpr ⟨e, hold, heq⟩)
      obtain ⟨e', he', heq'⟩ := (h₂.rejects_iff _ _).mp hgone
      rw [hdef₂.cmp, hdef₂.entry, hdef.cmp, hdef.entry] at heq'
      obtain ⟨hin, hne⟩ := (hmem₂ e').mp he'
      refine hne (hes.eq_of_cmp hin he ?_)
      rw [hdef.cmp]
      exact Std.TransCmp.eq_trans heq' (Std.OrientedCmp.eq_symm heq)
    obtain ⟨rid₁, d₁, hown, rfl⟩ := ((hmem e).mp he).resolve_left hnew
    refine ⟨rid₁, d₁, hown, fun rid' hown' => ?_, heq⟩
    obtain ⟨d', hown'⟩ := Option.ne_none_iff_exists'.mp hown'
    by_contra hne
    have hstays : i₀.entry d' rid' ∈ es₂ :=
      (hmem₂ _).mpr ⟨(hmem _).mpr (Or.inr ⟨rid', d', hown', rfl⟩), fun heq => hne (congrArg Prod.snd heq)⟩
    refine plus_refuses h hown' ((hrej d' rid').mp ((h₂.rejects_iff _ _).mpr ⟨_, hstays, ?_⟩))
    rw [hdef₂.cmp, hdef₂.entry, hdef.cmp, hdef.entry]
    exact h₀.compare_self _
  · rintro ⟨rid₁, d₁, hown, honly, heq₁⟩ d rid'
    exact (plus_removed_same h hremoved hown honly heq₁).rejects_iff d rid'

end Refuses

/-! ## What a lookup finds -/

section Finds

variable {own : RecordId → Option D} {i₀ i₁ i₂ : TableIndex D U} {record d : D} {rid rid' : RecordId}

theorem plus_finds (h : Plus own i₀ i₁) (hfinds : i₀.Finds d rid') : i₁.Finds d rid' := by
  obtain ⟨hdef, es₀, es, h₀, hes, -, hmem⟩ := h
  obtain ⟨es', hes', he⟩ := hfinds
  obtain rfl := h₀.unique hes'
  exact ⟨es, hes, (hmem _).mpr (Or.inl (by rwa [hdef.entry]))⟩

theorem same_finds (h : SameEntries i₁ i₂) (hfinds : i₁.Finds d rid') : i₂.Finds d rid' := by
  obtain ⟨es, hes, he⟩ := hfinds
  exact ⟨es, h.holds hes, by rwa [h.1.entry]⟩

theorem rid_eq_of_keyCmp_false {attrCmp : U → U → Ordering} {k₁ k₂ : IndexKey U}
    (h : keyCmp false attrCmp k₁ k₂ = .eq) : k₁.rid = k₂.rid := by
  rw [keyCmp_false, Ordering.then_eq_eq] at h
  exact Std.LawfulEqCmp.compare_eq_iff_eq.mp h.2

/-- An index that is not unique refuses a record only because of an entry with its identifier. -/
theorem removed_finds (h : Removed record rid i₁ i₂) (hu : i₁.unique = false) (hne : rid' ≠ rid)
    (hfinds : i₁.Finds d rid') : i₂.Finds d rid' := by
  obtain ⟨hdef, es, es₂, e, hes, h₂, -, heq, hmem⟩ := h
  obtain ⟨es', hes', hin⟩ := hfinds
  obtain rfl := hes.unique hes'
  refine ⟨es₂, h₂, (hmem _).mpr ⟨by rwa [hdef.entry], ?_⟩⟩
  rw [hdef.entry]
  rintro rfl
  rw [TableIndex.cmp, hu] at heq
  exact hne (rid_eq_of_keyCmp_false heq)

end Finds

end Miniob.Sql
