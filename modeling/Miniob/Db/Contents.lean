/-
  What a scan of a record file yields, without its order.

  `collect g` applies `g` to every stored row and keeps the results.  It depends only on the rows that
  `g` keeps, and it falls apart into the share of one place and the rest; so two files are compared
  place by place, or by the rows one of them has in addition (`Added`).
-/
import Mathlib.Data.Multiset.AddSub
import Miniob.Db.RecordFile

namespace Miniob.Db

open Miniob.Common Miniob.Storage

variable {D β : Type}

namespace RecordFile

def collect (f : RecordFile D) (g : RecordId → Row D → Option β) : Multiset β :=
  (f.rids.filterMap fun rid => (f.row rid).bind (g rid) : List β)

variable {f f' : RecordFile D} {g g' : RecordId → Row D → Option β} {rid : RecordId}

theorem nodup_rids (f : RecordFile D) : f.rids.Nodup :=
  f.sorted.imp fun {a b} hab hne => by
    rw [hne, @Std.ReflCmp.compare_self _ ridCmp] at hab
    cases hab

/-- The share of one place. -/
theorem collect_split (f : RecordFile D) (g : RecordId → Row D → Option β) (rid : RecordId) :
    f.collect g = ((f.row rid).bind (g rid)).toList + (f.unbind rid).collect g := by
  -- nothing changes at the other places
  have hrest : ∀ rids : List RecordId, rid ∉ rids →
      (rids.filterMap fun s => (f.row s).bind (g s)) =
        rids.filterMap fun s => ((f.unbind rid).row s).bind (g s) := by
    intro rids hnot
    refine List.filterMap_congr fun s hs => ?_
    have hne : s ≠ rid := by
      rintro rfl
      exact hnot hs
    rw [unbind_row_of_ne _ hne]
  have hnot : rid ∉ f.rids.filter (· ≠ rid) := by simp
  -- a row is at the place: it comes out of the list, and the rest stays in order
  by_cases hmem : rid ∈ f.rids
  · have hperm : f.rids.Perm (rid :: f.rids.filter (· ≠ rid)) := by
      have hfilter : f.rids.erase rid = f.rids.filter (· ≠ rid) := by
        rw [f.nodup_rids.erase_eq_filter]
        exact List.filter_congr fun s _ => Bool.eq_iff_iff.mpr (by simp)
      exact hfilter ▸ List.perm_cons_erase hmem
    have heq := Multiset.coe_eq_coe.mpr (hperm.filterMap fun s => (f.row s).bind (g s))
    refine heq.trans ?_
    rw [List.filterMap_cons, hrest _ hnot]
    cases (f.row rid).bind (g rid) with
    | none => exact (Multiset.zero_add _).symm
    | some b => rfl
  -- no row is at the place, so there is nothing to take out
  · have hnone : f.row rid = none := by
      cases hr : f.row rid with
      | none => rfl
      | some r => exact absurd ((f.mem_rids rid).mpr (by rw [hr]; rfl)) hmem
    have hall : f.rids.filter (· ≠ rid) = f.rids :=
      List.filter_eq_self.mpr fun s hs => by
        simp only [ne_eq, decide_not, Bool.not_eq_eq_eq_not, Bool.not_true, decide_eq_false_iff_not]
        rintro rfl
        exact hmem hs
    rw [hnone]
    show _ = 0 + (f.unbind rid).collect g
    rw [Multiset.zero_add]
    show ((f.rids.filterMap fun s => (f.row s).bind (g s) : List β) : Multiset β) =
      ((f.rids.filter (· ≠ rid)).filterMap fun s => ((f.unbind rid).row s).bind (g s) : List β)
    rw [← hrest _ hnot, hall]

/-- Places at which nothing is kept do not matter. -/
theorem collect_congr (h : ∀ rid, (f.row rid).bind (g rid) = (f'.row rid).bind (g' rid)) :
    f.collect g = f'.collect g' := by
  -- both sides keep the places whose row gives something, and these are the same
  have hkept : ∀ (f : RecordFile D) (g : RecordId → Row D → Option β),
      (f.rids.filterMap fun s => (f.row s).bind (g s)) =
        (f.rids.filter fun s => ((f.row s).bind (g s)).isSome).filterMap
          fun s => (f.row s).bind (g s) := by
    intro f g
    rw [List.filterMap_filter]
    refine List.filterMap_congr fun s _ => ?_
    cases (f.row s).bind (g s) <;> rfl
  have hrids : (f.rids.filter fun s => ((f.row s).bind (g s)).isSome) =
      f'.rids.filter fun s => ((f'.row s).bind (g' s)).isSome := by
    refine eq_of_sorted_of_mem_iff id (f.sorted.filter _) (f'.sorted.filter _) fun s => ?_
    rw [List.mem_filter, List.mem_filter, h s, f.mem_rids, f'.mem_rids]
    constructor
    · rintro ⟨-, hs⟩
      refine ⟨?_, hs⟩
      cases hr : f'.row s with
      | none => rw [hr] at hs; cases hs
      | some r => rfl
    · rintro ⟨-, hs⟩
      refine ⟨?_, hs⟩
      rw [← h s] at hs
      cases hr : f.row s with
      | none => rw [hr] at hs; cases hs
      | some r => rfl
  unfold collect
  rw [hkept f g, hkept f' g', hrids]
  refine congrArg _ (List.filterMap_congr fun s _ => h s)

/-- If the second one keeps what the first one keeps, and no more than that all in all, they keep the
    same at every place. -/
theorem collect_eq_iff (h : ∀ rid r, f.row rid = some r → g rid r = none ∨ g rid r = g' rid r) :
    f.collect g = f.collect g' ↔ ∀ rid r, f.row rid = some r → g rid r = g' rid r := by
  constructor
  · intro heq
    -- along the list, the first one can only fall behind
    have hlist : ∀ rids : List RecordId,
        (rids.filterMap fun s => (f.row s).bind (g s)).length ≤
          (rids.filterMap fun s => (f.row s).bind (g' s)).length ∧
        ((rids.filterMap fun s => (f.row s).bind (g s)).length =
          (rids.filterMap fun s => (f.row s).bind (g' s)).length →
          ∀ s ∈ rids, (f.row s).bind (g s) = (f.row s).bind (g' s)) := by
      intro rids
      induction rids with
      | nil => exact ⟨Nat.le_refl _, fun _ s hs => nomatch hs⟩
      | cons s rids ih =>
        obtain ⟨hle, hall⟩ := ih
        have hs : (f.row s).bind (g s) = none ∨
            (f.row s).bind (g s) = (f.row s).bind (g' s) := by
          cases hr : f.row s with
          | none => exact Or.inl rfl
          | some r => exact h s r hr
        rw [List.filterMap_cons, List.filterMap_cons]
        cases h₁ : (f.row s).bind (g s) with
        | some b =>
          rw [h₁] at hs
          rcases hs with hs | hs
          · cases hs
          rw [← hs]
          refine ⟨by simpa using hle, fun hlen s' hs' => ?_⟩
          rcases List.mem_cons.mp hs' with rfl | hs'
          · rw [h₁, hs]
          · exact hall (by simpa using hlen) s' hs'
        | none =>
          cases h₂ : (f.row s).bind (g' s) with
          | none =>
            refine ⟨hle, fun hlen s' hs' => ?_⟩
            rcases List.mem_cons.mp hs' with rfl | hs'
            · rw [h₁, h₂]
            · exact hall hlen s' hs'
          | some b =>
            refine ⟨Nat.le_succ_of_le hle, fun hlen => ?_⟩
            have hlong : (rids.filterMap fun s => (f.row s).bind (g s)).length =
                (rids.filterMap fun s => (f.row s).bind (g' s)).length + 1 := hlen
            omega
    have hlen := congrArg Multiset.card heq
    intro rid r hr
    have hrid := (hlist f.rids).2 hlen rid ((f.mem_rids rid).mpr (by rw [hr]; rfl))
    rw [hr] at hrid
    exact hrid
  · intro hall
    refine collect_congr fun rid => ?_
    cases hr : f.row rid with
    | none => rfl
    | some r => exact hall rid r hr

end RecordFile

/-! ## Rows in addition -/

/-- `f'` is `f` with the rows added. -/
structure Added (f f' : RecordFile D) (rows : List (RecordId × Row D)) : Prop where
  /-- No place has two rows. -/
  nodup : (rows.map Prod.fst).Nodup
  /-- The places were free. -/
  free : ∀ o ∈ rows, f.row o.1 = none
  /-- Now they have the rows. -/
  stored : ∀ o ∈ rows, f'.row o.1 = some o.2
  /-- Every other place is as it was. -/
  other : ∀ rid ∉ rows.map Prod.fst, f'.row rid = f.row rid

namespace Added

variable {f f' f'' : RecordFile D} {rows : List (RecordId × Row D)} {o : RecordId × Row D}

theorem refl (f : RecordFile D) : Added f f [] where
  nodup := .nil
  free _ h := nomatch h
  stored _ h := nomatch h
  other _ _ := rfl

theorem unbind (h : Added f f' (o :: rows)) : Added f (f'.unbind o.1) rows := by
  obtain ⟨hnot, hnd⟩ := List.nodup_cons.mp h.nodup
  constructor
  · exact hnd
  · exact fun o' ho' => h.free o' (List.mem_cons_of_mem o ho')
  · intro o' ho'
    rw [RecordFile.unbind_row_of_ne]
    · exact h.stored o' (List.mem_cons_of_mem o ho')
    · exact fun heq => hnot (heq ▸ List.mem_map_of_mem ho')
  · intro rid hrid
    by_cases heq : rid = o.1
    · rw [heq, RecordFile.unbind_row_self]
      exact (h.free o (by simp)).symm
    · rw [RecordFile.unbind_row_of_ne _ heq]
      refine h.other rid fun hmem => ?_
      rcases List.mem_cons.mp hmem with hmem | hmem
      · exact heq hmem
      · exact hrid hmem

theorem bind (h : Added f f' rows) (hfree : f'.row o.1 = none) :
    Added f (f'.bind o.1 o.2) (o :: rows) := by
  have hnot : o.1 ∉ rows.map Prod.fst := by
    intro hmem
    obtain ⟨o', ho', heq⟩ := List.mem_map.mp hmem
    have hrow := h.stored o' ho'
    rw [heq, hfree] at hrow
    cases hrow
  constructor
  · exact List.nodup_cons.mpr ⟨hnot, h.nodup⟩
  · intro o' ho'
    rcases List.mem_cons.mp ho' with rfl | ho'
    · exact (h.other _ hnot).symm.trans hfree
    · exact h.free o' ho'
  · intro o' ho'
    rcases List.mem_cons.mp ho' with rfl | ho'
    · exact RecordFile.bind_row_self ..
    · rw [RecordFile.bind_row_of_ne]
      · exact h.stored o' ho'
      · exact fun heq => hnot (heq ▸ List.mem_map_of_mem ho')
  · intro rid hrid
    rw [List.map_cons, List.mem_cons, not_or] at hrid
    rw [RecordFile.bind_row_of_ne _ _ hrid.1]
    exact h.other rid hrid.2

/-- A row that is stored before the others. -/
theorem cons (hfree : f.row o.1 = none) (h : Added (f.bind o.1 o.2) f' rows) : Added f f' (o :: rows) := by
  have hnot : o.1 ∉ rows.map Prod.fst := by
    intro hmem
    obtain ⟨o', ho', heq⟩ := List.mem_map.mp hmem
    have hrow := h.free o' ho'
    rw [heq, RecordFile.bind_row_self] at hrow
    cases hrow
  constructor
  · exact List.nodup_cons.mpr ⟨hnot, h.nodup⟩
  · intro o' ho'
    rcases List.mem_cons.mp ho' with rfl | ho'
    · exact hfree
    · have hrow := h.free o' ho'
      rwa [RecordFile.bind_row_of_ne] at hrow
      exact fun heq => hnot (heq ▸ List.mem_map_of_mem ho')
  · intro o' ho'
    rcases List.mem_cons.mp ho' with rfl | ho'
    · exact (h.other _ hnot).trans (RecordFile.bind_row_self ..)
    · exact h.stored o' ho'
  · intro rid hrid
    rw [List.map_cons, List.mem_cons, not_or] at hrid
    rw [h.other rid hrid.2, RecordFile.bind_row_of_ne _ _ hrid.1]

/-- The record identifiers of the rows are those that are new. -/
theorem mem_iff (h : Added f f' rows) (rid : RecordId) :
    rid ∈ rows.map Prod.fst ↔ f.row rid = none ∧ f'.row rid ≠ none := by
  constructor
  · intro hmem
    obtain ⟨o', ho', rfl⟩ := List.mem_map.mp hmem
    refine ⟨h.free o' ho', ?_⟩
    rw [h.stored o' ho']
    exact Option.some_ne_none _
  · rintro ⟨hfree, hnew⟩
    by_contra hmem
    exact hnew ((h.other rid hmem).trans hfree)

theorem length_eq {rows' : List (RecordId × Row D)} (h : Added f f' rows) (h' : Added f f' rows') :
    rows.length = rows'.length := by
  have hperm : (rows.map Prod.fst).Perm (rows'.map Prod.fst) :=
    (List.perm_ext_iff_of_nodup h.nodup h'.nodup).mpr fun rid => (h.mem_iff rid).trans (h'.mem_iff rid).symm
  simpa using hperm.length_eq

theorem eq_of_nil (h : Added f f' []) : f' = f :=
  RecordFile.ext_row fun rid => h.other rid List.not_mem_nil

/-- The rows of a file that are taken out of it. -/
theorem of_unbind (h : Added f'' (f.unbind o.1) rows) (ho : f.row o.1 = some o.2) :
    Added f'' f (o :: rows) := by
  have hnot : o.1 ∉ rows.map Prod.fst := by
    intro hmem
    obtain ⟨o', ho', heq⟩ := List.mem_map.mp hmem
    have hrow := h.stored o' ho'
    rw [heq, RecordFile.unbind_row_self] at hrow
    cases hrow
  constructor
  · exact List.nodup_cons.mpr ⟨hnot, h.nodup⟩
  · intro o' ho'
    rcases List.mem_cons.mp ho' with rfl | ho'
    · rw [← h.other _ hnot, RecordFile.unbind_row_self]
    · exact h.free o' ho'
  · intro o' ho'
    rcases List.mem_cons.mp ho' with rfl | ho'
    · exact ho
    · have hrow := h.stored o' ho'
      rwa [RecordFile.unbind_row_of_ne] at hrow
      exact fun heq => hnot (heq ▸ List.mem_map_of_mem ho')
  · intro rid hrid
    rw [List.map_cons, List.mem_cons, not_or] at hrid
    rw [← h.other rid hrid.2, RecordFile.unbind_row_of_ne _ hrid.1]

/-- The file without the rows is determined. -/
theorem base_unique (h : Added f' f rows) (h' : Added f'' f rows) : f' = f'' := by
  refine RecordFile.ext_row fun rid => ?_
  by_cases hmem : rid ∈ rows.map Prod.fst
  · obtain ⟨o, ho, rfl⟩ := List.mem_map.mp hmem
    rw [h.free o ho, h'.free o ho]
  · rw [← h.other rid hmem, h'.other rid hmem]

/-- The rows in addition are collected in addition. -/
theorem collect (h : Added f f' rows) (g : RecordId → Row D → Option β) :
    f'.collect g = (rows.filterMap fun o => g o.1 o.2 : List β) + f.collect g := by
  induction rows generalizing f' with
  | nil => rw [h.eq_of_nil, List.filterMap_nil, Multiset.coe_nil, Multiset.zero_add]
  | cons o rows ih =>
    rw [f'.collect_split g o.1, ih h.unbind, h.stored o (by simp), ← Multiset.add_assoc,
      List.filterMap_cons]
    cases hg : g o.1 o.2 with
    | none => simp [hg]
    | some b => simp [hg]

/-- What is kept at the places in addition does not matter for the file without them. -/
theorem collect_base (h : Added f f' rows) {g g' : RecordId → Row D → Option β}
    (hg : ∀ rid ∉ rows.map Prod.fst, ∀ r, g rid r = g' rid r) : f.collect g = f.collect g' := by
  refine RecordFile.collect_congr fun rid => ?_
  by_cases hmem : rid ∈ rows.map Prod.fst
  · obtain ⟨o, ho, rfl⟩ := List.mem_map.mp hmem
    rw [h.free o ho]
    rfl
  · cases f.row rid with
    | none => rfl
    | some r => exact hg rid hmem r

end Added

end Miniob.Db
