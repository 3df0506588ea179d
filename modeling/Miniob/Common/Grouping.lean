/-
  Grouping by a comparison.

  A map from keys to lists, ordered by a three-way comparison: each element goes to the end of the list
  of the key that compares equal to it, or starts a list of its own.  Where the comparison is an order,
  the lists are the classes of the elements that compare equal (`Grouped`).
-/
import Miniob.Common.ThreeWay
import Mathlib.Data.List.Dedup
import Mathlib.Data.List.Induction

namespace Miniob.Common

variable {α : Type} (cmp : α → α → Int)

/-- The first element of a list is its key. -/
def insertGroup (a : α) : List (α × List α) → List (α × List α)
  | [] => [(a, [a])]
  | (k, g) :: rest =>
    if cmp a k < 0 then (a, [a]) :: (k, g) :: rest
    else if cmp k a < 0 then (k, g) :: insertGroup a rest
    else (k, g ++ [a]) :: rest

def groupsOf (xs : List α) : List (α × List α) := xs.foldl (fun groups a => insertGroup cmp a groups) []

/-- The keys are in order. -/
def KeysSorted (groups : List (α × List α)) : Prop := groups.Pairwise fun p q => cmp p.1 q.1 < 0

variable {cmp} {S : Set α} {a : α} {groups : List (α × List α)} {xs : List α}

theorem Lawful.ne_zero_of_neg (h : Lawful cmp S) {b : α} (ha : a ∈ S) (hb : b ∈ S) (hab : cmp a b < 0) :
    cmp b a ≠ 0 := by
  have := (h.antisymm a ha b hb).mp hab
  omega

/-- Where an element goes. -/
theorem mem_insertGroup (h : Lawful cmp S) (ha : a ∈ S) (hgroups : ∀ p ∈ groups, p.1 ∈ S)
    (hsorted : KeysSorted cmp groups) {p : α × List α} : p ∈ insertGroup cmp a groups ↔
      (p ∈ groups ∧ cmp p.1 a ≠ 0) ∨ (∃ q ∈ groups, cmp q.1 a = 0 ∧ p = (q.1, q.2 ++ [a])) ∨
      ((∀ q ∈ groups, cmp q.1 a ≠ 0) ∧ p = (a, [a])) := by
  -- the induction is on the groups, which are passed in the order of their keys
  induction groups with
  | nil => simp [insertGroup]
  | cons q groups ih =>
    obtain ⟨k, g⟩ := q
    obtain ⟨hk, hrest⟩ := List.forall_mem_cons.mp hgroups
    obtain ⟨hfirst, hsorted⟩ := List.pairwise_cons.mp hsorted
    have ih := ih hrest hsorted
    unfold insertGroup
    by_cases hak : cmp a k < 0
    · -- in front of all
      have hne : ∀ q ∈ (k, g) :: groups, cmp q.1 a ≠ 0 := by
        rw [List.forall_mem_cons]
        refine ⟨h.ne_zero_of_neg ha hk hak, fun q hq => ?_⟩
        exact h.ne_zero_of_neg ha (hrest q hq)
          (h.lt_of_lt_of_le ha hk (hrest q hq) hak (le_of_lt (hfirst q hq)))
      rw [if_pos hak, List.mem_cons]
      constructor
      · rintro (rfl | hp)
        · exact Or.inr (Or.inr ⟨hne, rfl⟩)
        · exact Or.inl ⟨hp, hne p hp⟩
      · rintro (⟨hp, -⟩ | ⟨q, hq, hzero, -⟩ | ⟨-, rfl⟩)
        · exact Or.inr hp
        · exact absurd hzero (hne q hq)
        · exact Or.inl rfl
    · rw [if_neg hak]
      by_cases hka : cmp k a < 0
      · -- behind the first
        have hne : cmp k a ≠ 0 := by omega
        rw [if_pos hka, List.mem_cons, ih]
        constructor
        · rintro (rfl | ⟨hp, hpa⟩ | ⟨q, hq, hqa, rfl⟩ | ⟨hall, rfl⟩)
          · exact Or.inl ⟨List.mem_cons_self, hne⟩
          · exact Or.inl ⟨List.mem_cons_of_mem _ hp, hpa⟩
          · exact Or.inr (Or.inl ⟨q, List.mem_cons_of_mem _ hq, hqa, rfl⟩)
          · exact Or.inr (Or.inr ⟨List.forall_mem_cons.mpr ⟨hne, hall⟩, rfl⟩)
        · rintro (⟨hp, hpa⟩ | ⟨q, hq, hqa, rfl⟩ | ⟨hall, rfl⟩)
          · rcases List.mem_cons.mp hp with rfl | hp
            · exact Or.inl rfl
            · exact Or.inr (Or.inl ⟨hp, hpa⟩)
          · rcases List.mem_cons.mp hq with rfl | hq
            · exact absurd hqa hne
            · exact Or.inr (Or.inr (Or.inl ⟨q, hq, hqa, rfl⟩))
          · exact Or.inr (Or.inr (Or.inr ⟨(List.forall_mem_cons.mp hall).2, rfl⟩))
      · -- at the end of the first
        have hzero : cmp k a = 0 := by
          have := h.antisymm a ha k hk
          omega
        have hne : ∀ q ∈ groups, cmp q.1 a ≠ 0 := by
          intro q hq hqa
          exact hka (h.lt_of_lt_of_le hk (hrest q hq) ha (hfirst q hq) (le_of_eq hqa))
        rw [if_neg hka, List.mem_cons]
        constructor
        · rintro (rfl | hp)
          · exact Or.inr (Or.inl ⟨(k, g), List.mem_cons_self, hzero, rfl⟩)
          · exact Or.inl ⟨List.mem_cons_of_mem _ hp, hne p hp⟩
        · rintro (⟨hp, hpa⟩ | ⟨q, hq, hqa, rfl⟩ | ⟨hall, -⟩)
          · rcases List.mem_cons.mp hp with rfl | hp
            · exact absurd hzero hpa
            · exact Or.inr hp
          · rcases List.mem_cons.mp hq with rfl | hq
            · exact Or.inl rfl
            · exact absurd hqa (hne q hq)
          · exact absurd hzero (hall _ List.mem_cons_self)

/-- The keys stay in order. -/
theorem keysSorted_insertGroup (h : Lawful cmp S) (ha : a ∈ S) (hgroups : ∀ p ∈ groups, p.1 ∈ S)
    (hsorted : KeysSorted cmp groups) : KeysSorted cmp (insertGroup cmp a groups) := by
  induction groups with
  | nil => exact List.pairwise_singleton _ _
  | cons q groups ih =>
    obtain ⟨k, g⟩ := q
    have hsorted' := hsorted
    obtain ⟨hk, hrest⟩ := List.forall_mem_cons.mp hgroups
    obtain ⟨hfirst, hsorted⟩ := List.pairwise_cons.mp hsorted
    unfold insertGroup
    split
    · rename_i hak
      refine List.pairwise_cons.mpr ⟨?_, hsorted'⟩
      rw [List.forall_mem_cons]
      exact ⟨hak, fun q hq => h.lt_of_lt_of_le ha hk (hrest q hq) hak (le_of_lt (hfirst q hq))⟩
    · split
      · rename_i hka
        refine List.pairwise_cons.mpr ⟨fun p hp => ?_, ih hrest hsorted⟩
        rcases (mem_insertGroup h ha hrest hsorted).mp hp with ⟨hp, -⟩ | ⟨q, hq, -, rfl⟩ | ⟨-, rfl⟩
        · exact hfirst p hp
        · exact hfirst q hq
        · exact hka
      · exact List.pairwise_cons.mpr ⟨hfirst, hsorted⟩

/-- The lists are the classes, each with its first element as the key. -/
structure Grouped (cmp : α → α → Int) (xs : List α) (groups : List (α × List α)) : Prop where
  /-- The keys are in order. -/
  sorted : KeysSorted cmp groups
  /-- A group has all elements that are equal to its key. -/
  eq_filter : ∀ p ∈ groups, p.2 = xs.filter fun x => decide (cmp p.1 x = 0)
  /-- The key is the first of them. -/
  head : ∀ p ∈ groups, p.2.head? = some p.1
  /-- Every element is in a group. -/
  covers : ∀ x ∈ xs, ∃ p ∈ groups, cmp p.1 x = 0

theorem Grouped.key_mem (h : Grouped cmp xs groups) {p : α × List α} (hp : p ∈ groups) : p.1 ∈ xs := by
  have := List.mem_of_mem_head? (h.head p hp)
  rw [h.eq_filter p hp] at this
  exact (List.mem_filter.mp this).1

/-- An element joins the group of its key, or opens one. -/
theorem grouped_groupsOf (h : Lawful cmp {x | x ∈ xs}) : Grouped cmp xs (groupsOf cmp xs) := by
  -- the induction takes the last element off, as it is put in last
  induction xs using List.reverseRecOn with
  | nil =>
    refine ⟨List.Pairwise.nil, ?_, ?_, ?_⟩
    · exact List.forall_mem_nil _
    · exact List.forall_mem_nil _
    · exact List.forall_mem_nil _
  | append_singleton xs a ih =>
    have hsub : {x | x ∈ xs} ⊆ {x | x ∈ xs ++ [a]} := fun x hx => List.mem_append_left _ hx
    have ih := ih (h.mono hsub)
    have ha : a ∈ {x | x ∈ xs ++ [a]} := List.mem_append_right _ (List.mem_singleton_self a)
    have hkeys : ∀ p ∈ groupsOf cmp xs, p.1 ∈ {x | x ∈ xs ++ [a]} := fun p hp => hsub (ih.key_mem hp)
    have hsnoc : groupsOf cmp (xs ++ [a]) = insertGroup cmp a (groupsOf cmp xs) := by
      unfold groupsOf
      rw [List.foldl_append]
      rfl
    rw [hsnoc]
    have hself : cmp a a = 0 := h.refl a ha
    -- the keys, the members, the first members, and that every element is in a group
    refine ⟨keysSorted_insertGroup h ha hkeys ih.sorted, fun p hp => ?_, fun p hp => ?_, fun x hx => ?_⟩
    · rw [List.filter_append]
      rcases (mem_insertGroup h ha hkeys ih.sorted).mp hp with ⟨hp, hne⟩ | ⟨q, hq, hzero, rfl⟩ | ⟨hne, rfl⟩
      · rw [← ih.eq_filter p hp]
        simp [hne]
      · show q.2 ++ [a] = _
        rw [ih.eq_filter q hq]
        simp [hzero]
      · -- no element of the class is there yet
        have hnone : xs.filter (fun x => decide (cmp a x = 0)) = [] := by
          rw [List.filter_eq_nil_iff]
          intro x hx hax
          rw [decide_eq_true_eq] at hax
          obtain ⟨q, hq, hqx⟩ := ih.covers x hx
          have hxa : cmp x a = 0 := (h.eq_zero_comm ha (hsub hx)).mp hax
          exact hne q hq (h.eq_trans (hkeys q hq) (hsub hx) ha hqx hxa)
        rw [hnone]
        simp [hself]
    · rcases (mem_insertGroup h ha hkeys ih.sorted).mp hp with ⟨hp, -⟩ | ⟨q, hq, -, rfl⟩ | ⟨-, rfl⟩
      · exact ih.head p hp
      · rw [List.head?_append, ih.head q hq]
        rfl
      · rfl
    · -- the key of the group that the element went to, or was in
      have hgroup : ∀ q ∈ groupsOf cmp xs, ∃ p ∈ insertGroup cmp a (groupsOf cmp xs), p.1 = q.1 := by
        intro q hq
        by_cases hqa : cmp q.1 a = 0
        · exact ⟨_, (mem_insertGroup h ha hkeys ih.sorted).mpr (Or.inr (Or.inl ⟨q, hq, hqa, rfl⟩)), rfl⟩
        · exact ⟨q, (mem_insertGroup h ha hkeys ih.sorted).mpr (Or.inl ⟨hq, hqa⟩), rfl⟩
      rcases List.mem_append.mp hx with hx | hx
      · obtain ⟨q, hq, hqx⟩ := ih.covers x hx
        obtain ⟨p, hp, hpq⟩ := hgroup q hq
        exact ⟨p, hp, hpq ▸ hqx⟩
      · rw [List.mem_singleton] at hx
        subst hx
        by_cases hex : ∃ q ∈ groupsOf cmp xs, cmp q.1 x = 0
        · obtain ⟨q, hq, hqx⟩ := hex
          obtain ⟨p, hp, hpq⟩ := hgroup q hq
          exact ⟨p, hp, hpq ▸ hqx⟩
        · have hne : ∀ q ∈ groupsOf cmp xs, cmp q.1 x ≠ 0 := fun q hq hqx => hex ⟨q, hq, hqx⟩
          exact ⟨(x, [x]), (mem_insertGroup h ha hkeys ih.sorted).mpr (Or.inr (Or.inr ⟨hne, rfl⟩)), hself⟩

/-! ## Classes of a key -/

section Classes

variable {κ : Type} [DecidableEq κ] (key : α → κ)

/-- The elements with the same key, for each key that there is. -/
def classesOf (xs : List α) : List (List α) :=
  (xs.map key).dedup.map fun k => xs.filter fun x => decide (key x = k)

variable {key}

theorem mem_classesOf {g : List α} :
    g ∈ classesOf key xs ↔ ∃ x ∈ xs, g = xs.filter fun y => decide (key y = key x) := by
  unfold classesOf
  simp only [List.mem_map, List.mem_dedup, exists_exists_and_eq_and]
  exact exists_congr fun x => and_congr_right fun _ => eq_comm

/-- No class is there twice. -/
theorem nodup_classesOf (xs : List α) : (classesOf key xs).Nodup := by
  refine List.Nodup.map_on ?_ (List.nodup_dedup _)
  intro k hk k' _ heq
  obtain ⟨x, hx, rfl⟩ := List.mem_map.mp (List.mem_dedup.mp hk)
  have hmem : x ∈ xs.filter fun y => decide (key y = key x) := by simp [hx]
  rw [heq] at hmem
  simpa using (List.mem_filter.mp hmem).2

/-- **The groups are the classes of the keys** exactly if the comparison is zero on equal keys, and on no others. -/
theorem groups_perm_classes_iff (h : Lawful cmp {x | x ∈ xs}) :
    ((groupsOf cmp xs).map Prod.snd).Perm (classesOf key xs) ↔
      ∀ x ∈ xs, ∀ y ∈ xs, cmp x y = 0 ↔ key x = key y := by
  have hgrouped := grouped_groupsOf h
  constructor
  · intro hperm x hx y hy
    constructor
    · intro hxy
      obtain ⟨p, hp, hpx⟩ := hgrouped.covers x hx
      have hmem : ∀ z ∈ xs, cmp p.1 z = 0 → z ∈ p.2 := by
        intro z hz hpz
        rw [hgrouped.eq_filter p hp]
        simp [hz, hpz]
      obtain ⟨w, -, hw⟩ := mem_classesOf.mp (hperm.subset (List.mem_map_of_mem hp))
      have hkeys : ∀ z ∈ p.2, key z = key w := by
        intro z hz
        rw [hw] at hz
        simpa using (List.mem_filter.mp hz).2
      rw [hkeys x (hmem x hx hpx), hkeys y (hmem y hy (h.eq_trans (hgrouped.key_mem hp) hx hy hpx hxy))]
    · intro hxy
      -- both are in the list of one key
      obtain ⟨p, hp, heq⟩ := List.mem_map.mp (hperm.symm.subset (mem_classesOf.mpr ⟨x, hx, rfl⟩))
      have hzero : ∀ z ∈ xs, key z = key x → cmp p.1 z = 0 := by
        intro z hz hkey
        have hin : z ∈ p.2 := by
          rw [heq]
          simp [hz, hkey]
        rw [hgrouped.eq_filter p hp] at hin
        simpa using (List.mem_filter.mp hin).2
      have hpx := (h.eq_zero_comm (hgrouped.key_mem hp) hx).mp (hzero x hx rfl)
      exact h.eq_trans hx (hgrouped.key_mem hp) hy hpx (hzero y hy hxy.symm)
  · intro hexact
    have hclass : ∀ p ∈ groupsOf cmp xs, p.2 = xs.filter fun y => decide (key y = key p.1) := by
      intro p hp
      rw [hgrouped.eq_filter p hp]
      refine List.filter_congr fun y hy => decide_eq_decide.mpr ?_
      exact (hexact _ (hgrouped.key_mem hp) y hy).trans eq_comm
    refine (List.perm_ext_iff_of_nodup ?_ (nodup_classesOf xs)).mpr fun g => ?_
    · rw [List.Nodup, List.pairwise_map]
      refine hgrouped.sorted.imp_of_mem fun hp hq hlt heq => ?_
      have hhead := hgrouped.head _ hp
      rw [heq, hgrouped.head _ hq, Option.some.injEq] at hhead
      rw [hhead, h.refl _ (hgrouped.key_mem hp)] at hlt
      exact absurd hlt (Int.lt_irrefl 0)
    · rw [mem_classesOf, List.mem_map]
      constructor
      · rintro ⟨p, hp, rfl⟩
        exact ⟨p.1, hgrouped.key_mem hp, hclass p hp⟩
      · rintro ⟨x, hx, rfl⟩
        obtain ⟨p, hp, hpx⟩ := hgrouped.covers x hx
        refine ⟨p, hp, ?_⟩
        rw [hclass p hp, (hexact _ (hgrouped.key_mem hp) x hx).mp hpx]

end Classes

end Miniob.Common
