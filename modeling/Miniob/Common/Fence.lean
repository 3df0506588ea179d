/-
  Sorted sequences cut into blocks by separators.

  A multi-level index keeps one sorted sequence, cut into blocks (`keys`), each block carrying a
  separator (`sep`) that is at most its own keys and above every key of the blocks before it.
  The separator of the first block is a dummy that nobody compares, so every condition on a
  separator speaks of a block that has a predecessor.  `Fenced` is that invariant for an
  arbitrary comparator that is a total preorder; the block operations of a B+ tree (replace,
  split, merge) each have one lemma.

  `TailSorted` is the same convention for a single list of keyed items: sorted from item 1 on.
  `flatMap_eq_append_cons` finds the block that holds a given position of the concatenation.

  Nothing here mentions trees or pages.
-/
import Mathlib.Data.List.Basic

namespace Miniob.Common

/-! ## Comparators

  `cmp a b = .lt` is "less"; "at most" is written the way the code tests it, `cmp b a ≠ .lt`. -/

section Order

variable {K : Type} {cmp : K → K → Ordering} [Std.TransCmp cmp] {a b c : K}

theorem isLE_of_ge (h : cmp b a ≠ .lt) : (cmp a b).isLE := by
  rw [show cmp a b = (cmp b a).swap from Std.OrientedCmp.eq_swap]
  cases hc : cmp b a <;> simp_all

theorem ge_of_isLE (h : (cmp a b).isLE) : cmp b a ≠ .lt := by
  rw [show cmp b a = (cmp a b).swap from Std.OrientedCmp.eq_swap]
  cases hc : cmp a b <;> simp_all

theorem lt_of_lt_of_ge (h1 : cmp a b = .lt) (h2 : cmp c b ≠ .lt) : cmp a c = .lt :=
  Std.TransCmp.lt_of_lt_of_isLE h1 (isLE_of_ge h2)

theorem lt_of_ge_of_lt (h1 : cmp b a ≠ .lt) (h2 : cmp b c = .lt) : cmp a c = .lt :=
  Std.TransCmp.lt_of_isLE_of_lt (isLE_of_ge h1) h2

theorem ge_trans (h1 : cmp b a ≠ .lt) (h2 : cmp c b ≠ .lt) : cmp c a ≠ .lt :=
  ge_of_isLE (Std.TransCmp.isLE_trans (isLE_of_ge h1) (isLE_of_ge h2))

theorem ge_of_lt (h : cmp a b = .lt) : cmp b a ≠ .lt := by
  rw [show cmp b a = (cmp a b).swap from Std.OrientedCmp.eq_swap, h]
  nofun

theorem lt_irrefl (a : K) : cmp a a ≠ .lt := by
  rw [show cmp a a = .eq from Std.ReflCmp.compare_self]
  nofun

theorem gt_of_lt (h : cmp a b = .lt) : cmp b a = .gt :=
  Std.OrientedCmp.gt_iff_lt.mpr h

end Order

/-! ## Locating a position of a concatenation -/

/-- A position of `L.flatMap f` lies in the block of one element of `L`. -/
theorem flatMap_eq_append_cons {σ α : Type} {f : σ → List α} {z : α} {B : List α} :
    ∀ {L : List σ} {A : List α}, L.flatMap f = A ++ z :: B →
      ∃ LA x LB ia ib, L = LA ++ x :: LB ∧ f x = ia ++ z :: ib ∧
        A = LA.flatMap f ++ ia ∧ B = ib ++ LB.flatMap f
  | [], A, h => by simp at h
  | s :: L, A, h => by
    rw [List.flatMap_cons, List.append_eq_append_iff] at h
    rcases h with ⟨A', rfl, h⟩ | ⟨C, hs, h⟩
    · obtain ⟨LA, x, LB, ia, ib, rfl, hx, rfl, rfl⟩ := flatMap_eq_append_cons h
      exact ⟨s :: LA, x, LB, ia, ib, rfl, hx, by simp, rfl⟩
    · cases C with
      | nil =>
        obtain ⟨LA, x, LB, ia, ib, rfl, hx, hA, rfl⟩ :=
          flatMap_eq_append_cons (A := []) (by simpa using h.symm)
        exact ⟨s :: LA, x, LB, ia, ib, rfl, hx, by simpa [hs] using hA, rfl⟩
      | cons c C =>
        obtain ⟨rfl, rfl⟩ := List.cons_eq_cons.mp h
        exact ⟨[], s, L, A, C, rfl, hs, by simp, rfl⟩

theorem append_cons_eq_singleton {α : Type} {A B : List α} {z w : α} (h : A ++ z :: B = [w]) :
    A = [] ∧ z = w ∧ B = [] := by
  cases A with
  | nil => exact ⟨rfl, List.cons_eq_cons.mp h⟩
  | cons a A => simp at h

/-- In a list without repeated attributes, the other elements have other attributes. -/
theorem ne_of_nodup_append_cons {α β : Type} {g : α → β} {A B : List α} {y : α}
    (h : ((A ++ y :: B).map g).Nodup) {x : α} (hx : x ∈ A ∨ x ∈ B) : g x ≠ g y := by
  rw [List.map_append, List.map_cons, List.nodup_append, List.nodup_cons] at h
  rcases hx with hx | hx
  · exact h.2.2 _ (List.mem_map_of_mem hx) _ (by simp)
  · exact fun he => h.2.1.1 (he ▸ List.mem_map_of_mem hx)

/-! ## Items sorted from index 1 on -/

section TailSorted

variable {K β : Type} (cmp : K → K → Ordering)

/-- The keys of the items increase from item 1 on; item 0's key is not looked at. -/
def TailSorted (Z : List (K × β)) : Prop :=
  Z.tail.Pairwise fun a b => cmp a.1 b.1 = .lt

variable {cmp} {A B : List (K × β)} {z : K × β}

theorem TailSorted.right (h : TailSorted cmp (A ++ z :: B)) :
    B.Pairwise fun a b => cmp a.1 b.1 = .lt := by
  cases A with
  | nil => exact h
  | cons a A => exact (List.pairwise_cons.mp (List.pairwise_append.mp h).2.1).2

theorem TailSorted.lt_right (h : TailSorted cmp (A ++ z :: B)) (hA : A ≠ []) :
    ∀ b ∈ B, cmp z.1 b.1 = .lt := by
  cases A with
  | nil => exact absurd rfl hA
  | cons a A => exact (List.pairwise_cons.mp (List.pairwise_append.mp h).2.1).1

theorem TailSorted.left_lt (h : TailSorted cmp (A ++ z :: B)) :
    ∀ a ∈ A.tail, cmp a.1 z.1 = .lt := by
  cases A with
  | nil => nofun
  | cons a A => exact fun x hx => (List.pairwise_append.mp h).2.2 x hx z (by simp)

/-- A contiguous part of the items is sorted in the same sense. -/
theorem TailSorted.part {X Y Z : List (K × β)} (h : TailSorted cmp (X ++ Y ++ Z)) :
    TailSorted cmp Y := by
  cases Y with
  | nil => exact List.Pairwise.nil
  | cons y Y =>
    rw [List.append_assoc, List.cons_append] at h
    exact (List.pairwise_append.mp h.right).1

/-- Where the item at a position after the first fits, and that the rest stays sorted. -/
theorem TailSorted.insert_inv {x : K × β} (h : TailSorted cmp (A ++ z :: x :: B)) :
    TailSorted cmp (A ++ z :: B) ∧ (A ≠ [] → cmp z.1 x.1 = .lt) ∧
      ∀ b ∈ B.head?, cmp x.1 b.1 = .lt := by
  refine ⟨?_, fun hA => h.lt_right hA x (by simp), fun b hb => ?_⟩
  · refine List.Pairwise.sublist (List.Sublist.tail ?_) h
    exact (List.Sublist.refl A).append ((List.sublist_cons_self x B).cons_cons z)
  · rw [show A ++ z :: x :: B = (A ++ [z]) ++ x :: B by simp] at h
    exact h.lt_right (by simp) b (List.mem_of_mem_head? hb)

end TailSorted

/-! ## Fenced blocks -/

section Fenced

variable {K σ : Type} (cmp : K → K → Ordering) (sep : σ → K) (keys : σ → List K)

/-- Block `a` comes before block `b`: `b`'s separator is above `a`'s keys and at most its own. -/
def FenceRel (a b : σ) : Prop :=
  (∀ x ∈ keys a, cmp x (sep b) = .lt) ∧ ∀ x ∈ keys b, cmp x (sep b) ≠ .lt

/-- A sorted sequence cut into non-empty blocks with separators. -/
structure Fenced (segs : List σ) : Prop where
  sorted : ∀ s ∈ segs, (keys s).Pairwise fun a b => cmp a b = .lt
  nonempty : ∀ s ∈ segs, keys s ≠ []
  fence : segs.Pairwise (FenceRel cmp sep keys)

/-- `x` belongs in the block `s` of `A ++ s :: B`. -/
def InBlock (A : List σ) (s : σ) (B : List σ) (x : K) : Prop :=
  (A ≠ [] → cmp x (sep s) ≠ .lt) ∧ ∀ b ∈ B.head?, cmp x (sep b) = .lt

variable {cmp sep keys} [Std.TransCmp cmp] {A B : List σ} {s : σ}

/-- A separator is below the separators of the later blocks. -/
theorem Fenced.sep_lt (h : Fenced cmp sep keys (A ++ s :: B)) (hA : A ≠ []) {b : σ} (hb : b ∈ B) :
    cmp (sep s) (sep b) = .lt := by
  obtain ⟨a, A, rfl⟩ := List.exists_cons_of_ne_nil hA
  obtain ⟨x, hx⟩ := List.exists_mem_of_ne_nil _ (h.nonempty s (by simp))
  have hf := List.pairwise_cons.mp h.fence
  have has : FenceRel cmp sep keys a s := hf.1 s (by simp)
  have hsb : FenceRel cmp sep keys s b :=
    (List.pairwise_cons.mp (List.pairwise_append.mp hf.2).2.1).1 b hb
  exact lt_of_ge_of_lt (has.2 x hx) (hsb.1 x hx)

theorem Fenced.sep_tailSorted {β : Type} (g : σ → β) (h : Fenced cmp sep keys A) :
    TailSorted cmp (A.map fun s => (sep s, g s)) := by
  cases A with
  | nil => exact List.Pairwise.nil
  | cons a A =>
    rw [TailSorted, List.map_cons, List.tail_cons, List.pairwise_map]
    refine List.pairwise_iff_getElem.mpr fun i j hi hj hij => ?_
    have hcut : a :: A = (a :: A.take i) ++ A[i] :: A.drop (i + 1) := by simp
    rw [hcut] at h
    refine h.sep_lt (by simp) ?_
    rw [List.mem_iff_getElem]
    exact ⟨j - (i + 1), by simp; omega, by simp; congr 1; omega⟩

/-- The concatenation of the blocks is sorted. -/
theorem Fenced.flatMap_sorted (h : Fenced cmp sep keys A) :
    (A.flatMap keys).Pairwise fun a b => cmp a b = .lt := by
  rw [List.pairwise_flatMap]
  exact ⟨h.sorted, h.fence.imp fun hr x hx y hy => lt_of_lt_of_ge (hr.1 x hx) (hr.2 y hy)⟩

omit [Std.TransCmp cmp] in
/-- Every key has a block it belongs in. -/
theorem Fenced.exists_inBlock (h : Fenced cmp sep keys A) (hne : A ≠ []) (x : K) :
    ∃ A' s B', A = A' ++ s :: B' ∧ InBlock cmp sep A' s B' x := by
  induction A with
  | nil => exact absurd rfl hne
  | cons a A ih =>
    cases A with
    | nil => exact ⟨[], a, [], rfl, nofun, nofun⟩
    | cons b A =>
      by_cases hx : cmp x (sep b) = .lt
      · exact ⟨[], a, b :: A, rfl, nofun, by simpa using hx⟩
      · have h' : Fenced cmp sep keys (b :: A) :=
          ⟨fun s hs => h.sorted s (List.mem_cons_of_mem _ hs),
            fun s hs => h.nonempty s (List.mem_cons_of_mem _ hs),
            (List.pairwise_cons.mp h.fence).2⟩
        obtain ⟨A', s, B', hA, hin⟩ := ih h' (by simp)
        refine ⟨a :: A', s, B', by rw [hA]; rfl, fun _ => ?_, hin.2⟩
        cases A' with
        | nil =>
          obtain ⟨rfl, -⟩ := List.cons_eq_cons.mp hA
          exact hx
        | cons c A' => exact hin.1 (by simp)

/-- The keys of the blocks before and after the one a key belongs in are below and above it. -/
theorem InBlock.left_lt (h : Fenced cmp sep keys (A ++ s :: B)) {x : K}
    (hin : InBlock cmp sep A s B x) : ∀ a ∈ A, ∀ y ∈ keys a, cmp y x = .lt := by
  intro a ha y hy
  have hr := (List.pairwise_append.mp h.fence).2.2 a ha s (by simp)
  exact lt_of_lt_of_ge (hr.1 y hy) (hin.1 (List.ne_nil_of_mem ha))

theorem InBlock.lt_right (h : Fenced cmp sep keys (A ++ s :: B)) {x : K}
    (hin : InBlock cmp sep A s B x) : ∀ b ∈ B, cmp x (sep b) = .lt ∧ ∀ y ∈ keys b, cmp x y = .lt := by
  intro b hb
  have hx : cmp x (sep b) = .lt := by
    cases B with
    | nil => cases hb
    | cons c B =>
      have hc := hin.2 c (by simp)
      rcases List.mem_cons.mp hb with rfl | hb
      · exact hc
      · have h' : Fenced cmp sep keys ((A ++ [s]) ++ c :: B) := by simpa using h
        exact Std.TransCmp.lt_trans hc (h'.sep_lt (by simp) hb)
  have hsb := (List.pairwise_cons.mp (List.pairwise_append.mp h.fence).2.1).1 b hb
  exact ⟨hx, fun y hy => lt_of_lt_of_ge hx (hsb.2 y hy)⟩

omit [Std.TransCmp cmp] in
/-- A key of a block belongs in it. -/
theorem Fenced.inBlock (h : Fenced cmp sep keys (A ++ s :: B)) {x : K} (hx : x ∈ keys s) :
    InBlock cmp sep A s B x := by
  have hp := List.pairwise_append.mp h.fence
  refine ⟨fun hA => ?_, fun b hb => ?_⟩
  · obtain ⟨a, ha⟩ := List.exists_mem_of_ne_nil A hA
    exact (hp.2.2 a ha s (by simp)).2 x hx
  · exact ((List.pairwise_cons.mp hp.2.1).1 b (List.mem_of_mem_head? hb)).1 x hx

/-- Replace the keys of a block by any sorted keys that belong in it. -/
theorem Fenced.replace (h : Fenced cmp sep keys (A ++ s :: B)) {s' : σ} (hsep : sep s' = sep s)
    (hsorted : (keys s').Pairwise fun a b => cmp a b = .lt) (hne : keys s' ≠ [])
    (hin : ∀ x ∈ keys s', InBlock cmp sep A s B x) :
    Fenced cmp sep keys (A ++ s' :: B) := by
  have hp := List.pairwise_append.mp h.fence
  have hpc := List.pairwise_cons.mp hp.2.1
  refine ⟨?_, ?_, ?_⟩
  · intro b hb
    rcases List.mem_append.mp hb with hb | hb
    · exact h.sorted b (by simp [hb])
    rcases List.mem_cons.mp hb with rfl | hb
    · exact hsorted
    · exact h.sorted b (by simp [hb])
  · intro b hb
    rcases List.mem_append.mp hb with hb | hb
    · exact h.nonempty b (by simp [hb])
    rcases List.mem_cons.mp hb with rfl | hb
    · exact hne
    · exact h.nonempty b (by simp [hb])
  · refine List.pairwise_append.mpr ⟨hp.1, List.pairwise_cons.mpr ⟨?_, hpc.2⟩, ?_⟩
    · exact fun b hb => ⟨fun x hx => ((hin x hx).lt_right h b hb).1, (hpc.1 b hb).2⟩
    · intro a ha b hb
      rcases List.mem_cons.mp hb with rfl | hb
      · rw [FenceRel, hsep]
        exact ⟨(hp.2.2 a ha s (by simp)).1, fun x hx => (hin x hx).1 (List.ne_nil_of_mem ha)⟩
      · exact hp.2.2 a ha b (by simp [hb])

/-- Cut a block in two; the right part's separator is its first key. -/
theorem Fenced.split (h : Fenced cmp sep keys (A ++ s :: B)) {l r : σ} (hl : sep l = sep s)
    (hkeys : keys s = keys l ++ keys r) (hlne : keys l ≠ []) (hr : (keys r).head? = some (sep r)) :
    Fenced cmp sep keys (A ++ l :: r :: B) := by
  obtain ⟨rest, hrest⟩ : ∃ rest, keys r = sep r :: rest := List.head?_eq_some_iff.mp hr
  have hp := List.pairwise_append.mp h.fence
  have hpc := List.pairwise_cons.mp hp.2.1
  have hs := h.sorted s (by simp)
  rw [hkeys] at hs
  have hlr := List.pairwise_append.mp hs
  have hself : ∀ x ∈ keys r, cmp x (sep r) ≠ .lt := by
    intro x hx
    have hsr := hlr.2.1
    rw [hrest] at hx hsr
    rcases List.mem_cons.mp hx with rfl | hx
    · exact lt_irrefl _
    · exact ge_of_lt ((List.pairwise_cons.mp hsr).1 x hx)
  refine ⟨?_, ?_, ?_⟩
  · intro b hb
    simp only [List.mem_append, List.mem_cons] at hb
    rcases hb with hb | rfl | rfl | hb
    · exact h.sorted b (by simp [hb])
    · exact hlr.1
    · exact hlr.2.1
    · exact h.sorted b (by simp [hb])
  · intro b hb
    simp only [List.mem_append, List.mem_cons] at hb
    rcases hb with hb | rfl | rfl | hb
    · exact h.nonempty b (by simp [hb])
    · exact hlne
    · simp [hrest]
    · exact h.nonempty b (by simp [hb])
  · have hB : ∀ b ∈ B, FenceRel cmp sep keys l b ∧ FenceRel cmp sep keys r b := by
      intro b hb
      have hsb := hpc.1 b hb
      rw [FenceRel, hkeys] at hsb
      exact ⟨⟨fun x hx => hsb.1 x (by simp [hx]), hsb.2⟩, ⟨fun x hx => hsb.1 x (by simp [hx]), hsb.2⟩⟩
    have hlr' : FenceRel cmp sep keys l r := ⟨fun x hx => hlr.2.2 x hx _ (by simp [hrest]), hself⟩
    refine List.pairwise_append.mpr ⟨hp.1, List.pairwise_cons.mpr ⟨?_,
      List.pairwise_cons.mpr ⟨fun b hb => (hB b hb).2, hpc.2⟩⟩, ?_⟩
    · intro b hb
      rcases List.mem_cons.mp hb with rfl | hb
      · exact hlr'
      · exact (hB b hb).1
    · intro a ha b hb
      have has := hp.2.2 a ha s (by simp)
      rcases List.mem_cons.mp hb with rfl | hb
      · rw [FenceRel, hl]
        exact ⟨has.1, fun x hx => has.2 x (by simp [hkeys, hx])⟩
      rcases List.mem_cons.mp hb with rfl | hb
      · obtain ⟨y, hy⟩ := List.exists_mem_of_ne_nil _ hlne
        refine ⟨fun x hx => ?_, hself⟩
        have hyl : cmp x y = .lt := lt_of_lt_of_ge (has.1 x hx) (has.2 y (by simp [hkeys, hy]))
        exact Std.TransCmp.lt_trans hyl (hlr'.1 y hy)
      · exact hp.2.2 a ha b (by simp [hb])

/-- Join two neighbouring blocks under the left one's separator. -/
theorem Fenced.merge {l r : σ} (h : Fenced cmp sep keys (A ++ l :: r :: B)) (hs : sep s = sep l)
    (hkeys : keys s = keys l ++ keys r) : Fenced cmp sep keys (A ++ s :: B) := by
  have hp := List.pairwise_append.mp h.fence
  have hpc := List.pairwise_cons.mp hp.2.1
  have hlr := hpc.1 r (by simp)
  have hrB := List.pairwise_cons.mp hpc.2
  refine ⟨?_, ?_, ?_⟩
  · intro b hb
    simp only [List.mem_append, List.mem_cons] at hb
    rcases hb with hb | rfl | hb
    · exact h.sorted b (by simp [hb])
    · rw [hkeys, List.pairwise_append]
      exact ⟨h.sorted l (by simp), h.sorted r (by simp),
        fun x hx y hy => lt_of_lt_of_ge (hlr.1 x hx) (hlr.2 y hy)⟩
    · exact h.sorted b (by simp [hb])
  · intro b hb
    simp only [List.mem_append, List.mem_cons] at hb
    rcases hb with hb | rfl | hb
    · exact h.nonempty b (by simp [hb])
    · simp [hkeys, h.nonempty l]
    · exact h.nonempty b (by simp [hb])
  · refine List.pairwise_append.mpr ⟨hp.1, List.pairwise_cons.mpr ⟨?_, hrB.2⟩, ?_⟩
    · intro b hb
      refine ⟨fun x hx => ?_, (hrB.1 b hb).2⟩
      rw [hkeys] at hx
      rcases List.mem_append.mp hx with hx | hx
      · exact (hpc.1 b (by simp [hb])).1 x hx
      · exact (hrB.1 b hb).1 x hx
    · intro a ha b hb
      rcases List.mem_cons.mp hb with rfl | hb
      · have hal := hp.2.2 a ha l (by simp)
        rw [FenceRel, hs]
        refine ⟨hal.1, fun x hx => ?_⟩
        rw [hkeys] at hx
        rcases List.mem_append.mp hx with hx | hx
        · exact hal.2 x hx
        · obtain ⟨y, hy⟩ := List.exists_mem_of_ne_nil _ (h.nonempty l (by simp))
          exact ge_of_lt (lt_of_ge_of_lt (hal.2 y hy) (lt_of_lt_of_ge (hlr.1 y hy) (hlr.2 x hx)))
      · exact hp.2.2 a ha b (by simp [hb])

end Fenced
end Miniob.Common
