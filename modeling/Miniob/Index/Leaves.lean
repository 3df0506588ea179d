/-
  The whole tree: a chain of leaves under the internal levels.

  `TreeInv` is the invariant every operation keeps, over the list of leaves from left to right and
  the list of levels above them.  `IsTree t es` forgets the shape: `t` is a well-formed tree whose
  entries, read along the leaves, are `es`.  The parameter `Q` is any property of the inserted keys;
  separators are copies of inserted keys, so they have it too.
-/
import Miniob.Index.Levels

namespace Miniob.Index

open Miniob.Common Miniob.Storage BplusTree

variable {K V : Type}

/-! ## The chain of leaves -/

/-- The page of the first of some leaves, `endPage` if there is none. -/
def nextPage (endPage : PageNum) (segs : List (Seg K V)) : PageNum :=
  (segs.head?.map Seg.page).getD endPage

/-- The leaves are in their pages, each linked to the next one and the last one to `endPage`. -/
def LeafChain (t : BplusTree K V) (endPage : PageNum) : List (Seg K V) → Prop
  | [] => True
  | s :: segs =>
    t.body s.page = some (.leaf (nextPage endPage segs) s.items) ∧ LeafChain t endPage segs

section Chain

variable {t t' : BplusTree K V} {endPage : PageNum}

theorem nextPage_append (A B : List (Seg K V)) :
    nextPage endPage (A ++ B) = nextPage (nextPage endPage B) A := by
  cases A <;> rfl

theorem leafChain_append {B : List (Seg K V)} :
    ∀ {A : List (Seg K V)}, LeafChain t endPage (A ++ B) ↔
      LeafChain t (nextPage endPage B) A ∧ LeafChain t endPage B
  | [] => by simp [LeafChain]
  | a :: A => by
    rw [List.cons_append, LeafChain, LeafChain, leafChain_append, nextPage_append, and_assoc]

theorem LeafChain.congr : ∀ {segs : List (Seg K V)}, LeafChain t endPage segs →
    (∀ s ∈ segs, t'.body s.page = t.body s.page) → LeafChain t' endPage segs
  | [], _, _ => trivial
  | s :: segs, ⟨hb, h⟩, heq => ⟨(heq s (by simp)).trans hb, h.congr fun x hx => heq x (by simp [hx])⟩

theorem LeafChain.isSome_body : ∀ {segs : List (Seg K V)}, LeafChain t endPage segs →
    ∀ s ∈ segs, (t.body s.page).isSome
  | s :: segs, ⟨hb, h⟩, x, hx => by
    rcases List.mem_cons.mp hx with rfl | hx
    · rw [hb]
      rfl
    · exact h.isSome_body x hx

theorem LeafChain.body {A B : List (Seg K V)} {s : Seg K V} (h : LeafChain t endPage (A ++ s :: B)) :
    t.body s.page = some (.leaf (nextPage endPage B) s.items) :=
  (leafChain_append.mp h).2.1

/-- Leaves `N` are replaced by `M`, which start at the same page. -/
theorem LeafChain.replace {A N M B : List (Seg K V)} (h : LeafChain t endPage (A ++ (N ++ B)))
    (hM : LeafChain t' (nextPage endPage B) M)
    (hpage : nextPage (nextPage endPage B) M = nextPage (nextPage endPage B) N)
    (hbody : ∀ s, s ∈ A ∨ s ∈ B → t'.body s.page = t.body s.page) :
    LeafChain t' endPage (A ++ (M ++ B)) := by
  rw [leafChain_append, leafChain_append, nextPage_append] at h
  rw [leafChain_append, leafChain_append, nextPage_append, hpage]
  exact ⟨h.1.congr fun s hs => hbody s (Or.inl hs), hM, h.2.2.congr fun s hs => hbody s (Or.inr hs)⟩

end Chain

/-! ## The invariant -/

/-- The shape of a non-empty tree with leaves `segs` and levels `Ls`. -/
structure TreeShape (cmp : K → K → Ordering) (zeroKey : K) (Q : K → Prop) (t : BplusTree K V)
    (segs : List (Seg K V)) (Ls : List (Level K)) : Prop where
  /-- The internal levels lead to the leaves. -/
  levels : Levels zeroKey t (segs.map Seg.head) Ls
  /-- No internal node is too small or too full. -/
  sizes : Sizes t.fileHeader.internalMaxSize Ls
  /-- The leaves are linked from left to right. -/
  leaves : LeafChain t bpInvalidPageNum segs
  /-- The keys of a leaf lie between its separator and the next one. -/
  fenced : Fenced cmp Seg.sep Seg.keys segs
  /-- No page is listed twice. -/
  nodup : (segs.map Seg.page ++ pages Ls).Nodup
  /-- No leaf is too full. -/
  leafMax : ∀ s ∈ segs, s.items.length ≤ t.fileHeader.leafMaxSize
  /-- The keys of the entries. -/
  keysQ : ∀ s ∈ segs, ∀ k ∈ s.keys, Q k
  /-- The separators that are used. -/
  sepsQ : ∀ s ∈ segs.tail, Q s.sep

/-- The invariant every operation keeps: the shape, and every leaf below a root half full. -/
structure TreeInv (cmp : K → K → Ordering) (zeroKey : K) (Q : K → Prop) (t : BplusTree K V)
    (segs : List (Seg K V)) (Ls : List (Level K)) : Prop
    extends TreeShape cmp zeroKey Q t segs Ls where
  leafMin : Ls ≠ [] → ∀ s ∈ segs, t.fileHeader.leafMaxSize / 2 ≤ s.items.length

/-- `t` is a well-formed tree with the entries `es`. -/
def IsTree (cmp : K → K → Ordering) (zeroKey : K) (Q : K → Prop) (t : BplusTree K V)
    (es : List (K × V)) : Prop :=
  (t.isEmpty = true ∧ es = []) ∨
    ∃ segs Ls, TreeInv cmp zeroKey Q t segs Ls ∧ segs.flatMap Seg.items = es

section Invariant

variable {cmp : K → K → Ordering} {zeroKey : K} {Q : K → Prop} {t : BplusTree K V}
  {segs : List (Seg K V)} {Ls : List (Level K)}

namespace TreeShape

theorem isSome_body (h : TreeShape cmp zeroKey Q t segs Ls) :
    ∀ p ∈ segs.map Seg.page ++ pages Ls, (t.body p).isSome := by
  intro p hp
  rcases List.mem_append.mp hp with hp | hp
  · obtain ⟨s, hs, rfl⟩ := List.mem_map.mp hp
    exact h.leaves.isSome_body s hs
  · exact h.levels.isSome_body p hp

theorem isEmpty_eq (h : TreeShape cmp zeroKey Q t segs Ls) : t.isEmpty = false := by
  have hr := h.levels.root_mem
  rw [map_snd_head] at hr
  obtain ⟨b, hb⟩ := Option.isSome_iff_exists.mp (h.isSome_body _ hr)
  exact beq_eq_false_iff_ne.mpr (ne_invalid_of_body hb)

theorem segs_ne_nil (h : TreeShape cmp zeroKey Q t segs Ls) : segs ≠ [] := by
  rintro rfl
  exact h.levels.ne_nil rfl

/-- The walks of the tree never run out of fuel. -/
theorem fuel (h : TreeShape cmp zeroKey Q t segs Ls) : ∃ n, t.pool.pageCount = n + 1 + Ls.length := by
  have hlen := t.pool.length_lt_pageCount h.nodup fun p hp => by
    rw [page_isSome]
    exact h.isSome_body p hp
  have := h.levels.length_le
  simp only [List.length_append, List.length_map] at hlen
  exact ⟨t.pool.pageCount - 1 - Ls.length, by omega⟩

/-- The items of one leaf are overwritten, nothing else. -/
theorem setLeaf {A B : List (Seg K V)} {s s' : Seg K V}
    (h : TreeShape cmp zeroKey Q t (A ++ s :: B) Ls) (hsep : s'.sep = s.sep) (hpage : s'.page = s.page)
    (hf : Fenced cmp Seg.sep Seg.keys (A ++ s' :: B))
    (hmax : s'.items.length ≤ t.fileHeader.leafMaxSize) (hQ : ∀ k ∈ s'.keys, Q k) :
    TreeShape cmp zeroKey Q (t.setBody s.page (.leaf (nextPage bpInvalidPageNum B) s'.items))
      (A ++ s' :: B) Ls := by
  have hnd := h.nodup
  rw [List.nodup_append] at hnd
  obtain ⟨hndS, -, hdis⟩ := hnd
  -- a fact of every leaf only has to be shown of the new one
  have hmem : ∀ {P : Seg K V → Prop}, (∀ x ∈ A ++ s :: B, P x) → P s' → ∀ x ∈ A ++ s' :: B, P x := by
    intro P hall hs' x hx
    rcases List.mem_append.mp hx with hx | hx
    · exact hall x (by simp [hx])
    rcases List.mem_cons.mp hx with rfl | hx
    · exact hs'
    · exact hall x (by simp [hx])
  refine ⟨?_, h.sizes, ?_, hf, by simpa [hpage] using h.nodup, hmem h.leafMax hmax,
    hmem h.keysQ hQ, ?_⟩
  -- no inner node is written
  · have hlev : Levels zeroKey (t.setBody s.page (.leaf (nextPage bpInvalidPageNum B) s'.items))
        ((A ++ s :: B).map Seg.head) Ls := by
      refine h.levels.congr (by rfl) (fun p hp => ?_) fun p _ => by rw [parentOf_setBody]
      rw [body_setBody, if_neg]
      rintro rfl
      exact hdis s.page (by simp) _ hp rfl
    simpa [Seg.head, hsep, hpage] using hlev
  -- the leaf keeps its page and its neighbours
  · refine LeafChain.replace (N := [s]) (M := [s']) h.leaves ⟨?_, trivial⟩
      (by simp [nextPage, hpage]) fun x hx => ?_
    · rw [hpage, body_setBody, if_pos rfl, h.leaves.body]
      rfl
    · rw [body_setBody, if_neg (ne_of_nodup_append_cons hndS hx)]
  · intro x hx
    cases A with
    | nil => exact h.sepsQ x hx
    | cons a A =>
      rw [List.cons_append, List.tail_cons] at hx
      rcases List.mem_append.mp hx with hx | hx
      · exact h.sepsQ x (by simp [hx])
      rcases List.mem_cons.mp hx with rfl | hx
      · rw [hsep]
        exact h.sepsQ s (by simp)
      · exact h.sepsQ x (by simp [hx])

variable [Std.TransCmp cmp]

theorem sorted_entries (h : TreeShape cmp zeroKey Q t segs Ls) :
    (segs.flatMap Seg.items).Pairwise fun a b => cmp a.1 b.1 = .lt := by
  have hs := h.fenced.flatMap_sorted
  have hmap : segs.flatMap Seg.keys = (segs.flatMap Seg.items).map Prod.fst := by
    rw [List.map_flatMap]
    rfl
  rwa [hmap, List.pairwise_map] at hs

/-- **Search.**  `find_leaf` returns the leaf in whose block the key belongs. -/
theorem findLeaf_eq {A B : List (Seg K V)} {s : Seg K V} {x : K}
    (h : TreeShape cmp zeroKey Q t (A ++ s :: B) Ls) (hx : InBlock cmp Seg.sep A s B x) :
    t.findLeaf cmp x = .ok (some s.page) := by
  obtain ⟨n, hn⟩ := h.fuel
  have hlev := h.levels
  have hs : TailSorted cmp ((A ++ s :: B).map Seg.head) := h.fenced.sep_tailSorted Seg.page
  rw [List.map_append, List.map_cons] at hlev hs
  rw [findLeaf, findLeafInternal, h.isEmpty_eq, hn,
    hlev.findLeafFrom_eq (n + 1) hs (fun hne => hx.1 (by simpa using hne))
      (by simpa [List.head?_map] using hx.2), Seg.head_snd, findLeafFrom_leaf h.leaves.body]
  rfl

/-- Where a key belongs, and what `find_leaf` answers. -/
theorem exists_findLeaf (h : TreeShape cmp zeroKey Q t segs Ls) (x : K) :
    ∃ A s B, segs = A ++ s :: B ∧ InBlock cmp Seg.sep A s B x ∧
      t.findLeaf cmp x = .ok (some s.page) := by
  obtain ⟨A, s, B, rfl, hin⟩ := h.fenced.exists_inBlock h.segs_ne_nil x
  exact ⟨A, s, B, rfl, hin, h.findLeaf_eq hin⟩

omit [Std.TransCmp cmp] in
/-- `left_most_page` returns the first leaf. -/
theorem leftMostPage_eq {B : List (Seg K V)} {s : Seg K V}
    (h : TreeShape cmp zeroKey Q t (s :: B) Ls) : t.leftMostPage = .ok (some s.page) := by
  obtain ⟨n, hn⟩ := h.fuel
  have hlev := h.levels
  rw [List.map_cons] at hlev
  rw [leftMostPage, findLeafInternal, h.isEmpty_eq, hn, hlev.findLeafFrom_zero (n + 1),
    Seg.head_snd, findLeafFrom_leaf h.leaves.1]
  rfl

end TreeShape

/-- Several leaves are below a root, so they are at least half full. -/
theorem TreeInv.leafMin_of_length (h : TreeInv cmp zeroKey Q t segs Ls) (hlen : 2 ≤ segs.length) :
    ∀ s ∈ segs, t.fileHeader.leafMaxSize / 2 ≤ s.items.length := by
  refine h.leafMin ?_
  rintro rfl
  have := congrArg List.length h.levels.1
  simp at this
  omega


variable [Std.TransCmp cmp] {es : List (K × V)}

theorem IsTree.sorted (h : IsTree cmp zeroKey Q t es) :
    es.Pairwise fun a b => cmp a.1 b.1 = .lt := by
  rcases h with ⟨-, rfl⟩ | ⟨segs, Ls, hinv, rfl⟩
  · exact List.Pairwise.nil
  · exact hinv.sorted_entries

end Invariant
end Miniob.Index
