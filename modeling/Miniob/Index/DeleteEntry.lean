/-
  `BplusTreeHandler::delete_entry`: what it returns and the tree it leaves.

  The entry is taken out of its leaf.  A leaf that is then too small borrows an entry from a
  neighbour or is joined with it, and the levels above repair themselves; the root leaf may become
  empty, which empties the tree.  The rebalancing never moves an entry past another, so the entries
  read along the leaves are the old ones without the deleted one.
-/
import Miniob.Index.DeleteParent
import Miniob.Index.Leaves

namespace Miniob.Index

open Miniob.Common Miniob.Storage BplusTree

variable {K V : Type} {cmp : K → K → Ordering} [Std.TransCmp cmp] {zeroKey : K} {Q : K → Prop}
  {t : BplusTree K V}

/-- The capacities the tree operations need, for keys with property `Q`. -/
structure Capacity (cmp : K → K → Ordering) (zeroKey : K) (Q : K → Prop) (header : IndexFileHeader) :
    Prop where
  leaf : 4 ≤ header.leafMaxSize
  internal : InternalCapacity cmp zeroKey Q header.internalMaxSize

omit [Std.TransCmp cmp] in
theorem Capacity.congr {header header' : IndexFileHeader} (h : Capacity cmp zeroKey Q header)
    (hl : header'.leafMaxSize = header.leafMaxSize)
    (hi : header'.internalMaxSize = header.internalMaxSize) : Capacity cmp zeroKey Q header' :=
  ⟨hl ▸ h.leaf, hi ▸ h.internal⟩

/-! ## The leaf level -/

/-- Leaf `s` has lost an entry and may be one short of half full. -/
structure UnderfullLeaf (cmp : K → K → Ordering) (zeroKey : K) (Q : K → Prop) (t : BplusTree K V)
    (A : List (Seg K V)) (s : Seg K V) (B : List (Seg K V)) (Ls : List (Level K)) : Prop
    extends TreeShape cmp zeroKey Q t (A ++ s :: B) Ls where
  half : Ls ≠ [] → ∀ x ∈ A ++ s :: B,
    t.fileHeader.leafMaxSize / 2 ≤ x.items.length + (if s.page = x.page then 1 else 0)

namespace UnderfullLeaf

variable {A B SA SB : List (Seg K V)} {s l r : Seg K V} {P PA PB : Level K}
  {Ls Ps : List (Level K)} {y : Seg K PageNum} {ia ib : List (K × PageNum)}

omit [Std.TransCmp cmp] in
theorem siblings (h : UnderfullLeaf cmp zeroKey Q t A s B (P :: Ps))
    (w : Window (A ++ s :: B) P SA l r SB PA y PB ia ib) :
    Siblings leafHandler t l r y ia ib r.page (nextPage bpInvalidPageNum SB) := by
  have hleaves := h.leaves
  have hnd := h.nodup
  rw [w.nodes] at hleaves hnd
  obtain ⟨hP, -, -⟩ := h.levels
  have hyP : y ∈ P := by rw [w.parents]; simp
  have hneY : ∀ p ∈ (SA ++ l :: r :: SB).map Seg.page, p ≠ y.page := fun p hp =>
    (List.nodup_append.mp hnd).2.2 p hp y.page
      (by rw [pages_cons]; exact List.mem_append_left _ (List.mem_map_of_mem hyP))
  refine ⟨hleaves.body, ?_, ?_, nofun, nofun, ?_, hneY _ (by simp), hneY _ (by simp), List.nodup_nil,
    List.nodup_nil, nofun⟩
  · rw [show SA ++ l :: r :: SB = (SA ++ [l]) ++ r :: SB by simp] at hleaves
    exact hleaves.body
  · rw [(hP y hyP).body, w.items]
  · exact (ne_of_nodup_append_cons (List.nodup_append.mp hnd).1 (Or.inr (by simp))).symm

omit [Std.TransCmp cmp] in
/-- The other leaves of a window are at least half full. -/
theorem half_beside (h : UnderfullLeaf cmp zeroKey Q t A s B (P :: Ps))
    (w : Window (A ++ s :: B) P SA l r SB PA y PB ia ib) (hs : s = l ∨ s = r) {M : List (Seg K V)}
    (hM : ∀ x ∈ M, t.fileHeader.leafMaxSize / 2 ≤ x.items.length) :
    ∀ x ∈ SA ++ M ++ SB, t.fileHeader.leafMaxSize / 2 ≤ x.items.length := by
  have hnd := (List.nodup_append.mp h.nodup).1
  have hhalf := h.half (by simp)
  rw [w.nodes] at hnd hhalf
  have hside : ∀ x, x ∈ SA ∨ x ∈ SB → s.page ≠ x.page := by
    intro x hx
    rcases hs with rfl | rfl
    · exact (ne_of_nodup_append_cons hnd (by rcases hx with hx | hx <;> simp [hx])).symm
    · rw [show SA ++ l :: s :: SB = (SA ++ [l]) ++ s :: SB by simp] at hnd
      exact (ne_of_nodup_append_cons hnd (by rcases hx with hx | hx <;> simp [hx])).symm
  intro x hx
  simp only [List.mem_append] at hx
  rcases hx with (hx | hx) | hx
  · simpa [hside x (Or.inl hx)] using hhalf x (by simp [hx])
  · exact hM x hx
  · simpa [hside x (Or.inr hx)] using hhalf x (by simp [hx])

omit [Std.TransCmp cmp] in
/-- The leaves beside a window keep their pages. -/
theorem leaves_after (h : UnderfullLeaf cmp zeroKey Q t A s B (P :: Ps))
    (w : Window (A ++ s :: B) P SA l r SB PA y PB ia ib) {t' : BplusTree K V} {M : List (Seg K V)}
    (hM : LeafChain t' (nextPage bpInvalidPageNum SB) M)
    (hpage : nextPage (nextPage bpInvalidPageNum SB) M = l.page)
    (hbody : ∀ p, p ≠ l.page → p ≠ r.page → p ≠ y.page → t'.body p = t.body p) :
    LeafChain t' bpInvalidPageNum (SA ++ (M ++ SB)) := by
  have hleaves := h.leaves
  have hnd := h.nodup
  rw [w.nodes] at hleaves hnd
  have hyP : y ∈ P := by rw [w.parents]; simp
  refine LeafChain.replace (N := [l, r]) hleaves hM hpage fun x hx => ?_
  have hndS := (List.nodup_append.mp hnd).1
  refine hbody _ (ne_of_nodup_append_cons hndS (by rcases hx with hx | hx <;> simp [hx])) ?_ ?_
  · rw [show SA ++ l :: r :: SB = (SA ++ [l]) ++ r :: SB by simp] at hndS
    exact ne_of_nodup_append_cons hndS (by rcases hx with hx | hx <;> simp [hx])
  · refine (List.nodup_append.mp hnd).2.2 _ (List.mem_map_of_mem (by
      rcases hx with hx | hx <;> simp [hx])) y.page ?_
    rw [pages_cons]
    exact List.mem_append_left _ (List.mem_map_of_mem hyP)

/-- Borrowing an entry repairs the tree. -/
theorem treeInv_of_redistributed (h : UnderfullLeaf cmp zeroKey Q t A s B (P :: Ps))
    (w : Window (A ++ s :: B) P SA l r SB PA y PB ia ib) (hs : s = l ∨ s = r) {t' : BplusTree K V}
    {es fs : List (K × V)} {k : K} (hred : Redistributed leafHandler t t' l r y ia ib r.page
      (nextPage bpInvalidPageNum SB) es fs k)
    (hmin : ∀ n ∈ [es.length, fs.length], t.fileHeader.leafMaxSize / 2 ≤ n ∧
      n ≤ t.fileHeader.leafMaxSize) (hes : es ≠ []) :
    TreeInv cmp zeroKey Q t' (SA ++ [⟨l.sep, l.page, es⟩, ⟨k, r.page, fs⟩] ++ SB)
      ((PA ++ ⟨y.sep, y.page, ia ++ [l.head, (k, r.page)] ++ ib⟩ :: PB) :: Ps) := by
  -- both leaves keep the items they had between them, so what holds of all leaves is checked for the two and the
  -- rest
  have hnd := h.nodup
  have hkeys : ∀ x ∈ (es ++ fs).map Prod.fst, Q x := by
    intro x hx
    rw [hred.items, List.map_append, List.mem_append] at hx
    rcases hx with hx | hx
    · exact h.keysQ l (by rw [w.nodes]; simp) x hx
    · exact h.keysQ r (by rw [w.nodes]; simp) x hx
  have hmem : ∀ {R : Seg K V → Prop}, (∀ x ∈ A ++ s :: B, R x) → R ⟨l.sep, l.page, es⟩ →
      R ⟨k, r.page, fs⟩ →
      ∀ x ∈ SA ++ [⟨l.sep, l.page, es⟩, ⟨k, r.page, fs⟩] ++ SB, R x := by
    intro R hall hl hr x hx
    rw [w.nodes] at hall
    simp only [List.mem_append, List.mem_cons, List.not_mem_nil, or_false] at hx
    rcases hx with (hx | rfl | rfl) | hx
    · exact hall x (by simp [hx])
    · exact hl
    · exact hr
    · exact hall x (by simp [hx])
  refine ⟨⟨?_, ⟨?_, ?_⟩, ?_, ?_, ?_, ?_, ?_, ?_⟩, fun _ => ?_⟩
  · simpa using hred.levels w h.levels hnd fun _ _ => nofun
  · rw [hred.header]
    have hP := h.sizes.1
    -- the parent has as many children as before
    rw [w.parents] at hP
    exact hP.set (by simp [w.items])
  · rw [hred.header]
    exact h.sizes.2
  · rw [List.append_assoc]
    refine h.leaves_after w ⟨hred.bodyL, hred.bodyR, trivial⟩ rfl hred.body
  · -- joined and split again at the new key
    have hf := h.fenced
    rw [w.nodes] at hf
    have hm : Fenced cmp Seg.sep Seg.keys (SA ++ ⟨l.sep, l.page, l.items ++ r.items⟩ :: SB) :=
      hf.merge rfl (by simp [Seg.keys])
    have hsplit := hm.split (l := ⟨l.sep, l.page, es⟩) (r := ⟨k, r.page, fs⟩) rfl
      (by simp only [Seg.keys, ← List.map_append, hred.items]) (by simpa [Seg.keys] using hes)
      (by simpa [Seg.keys, List.head?_map] using hred.sep)
    simpa using hsplit
  · rw [w.nodes, w.parents] at hnd
    simpa using hnd
  · rw [hred.header]
    exact hmem h.leafMax (hmin _ (by simp)).2 (hmin fs.length (by simp)).2
  · refine hmem h.keysQ (fun x hx => hkeys x ?_) fun x hx => hkeys x ?_
    · rw [List.map_append]
      exact List.mem_append_left _ hx
    · rw [List.map_append]
      exact List.mem_append_right _ hx
  -- only the separator of the right leaf is new: it is the first key there
  · have hQk : Q k := by
      obtain ⟨e, he, hek⟩ := Option.map_eq_some_iff.mp hred.sep
      refine hkeys k ?_
      rw [← hek, List.map_append]
      exact List.mem_append_right _ (List.mem_map_of_mem (List.mem_of_mem_head? he))
    have hseps := h.sepsQ
    rw [w.nodes] at hseps
    intro x hx
    cases SA with
    | nil =>
      rcases List.mem_cons.mp hx with rfl | hx
      · exact hQk
      · exact hseps x (List.mem_cons_of_mem _ hx)
    | cons a SA =>
      simp only [List.cons_append, List.tail_cons, List.mem_append, List.mem_cons, List.not_mem_nil,
        or_false] at hx hseps
      rcases hx with (hx | rfl | rfl) | hx
      · exact hseps x (Or.inl hx)
      · exact hseps l (Or.inr (Or.inl rfl))
      · exact hQk
      · exact hseps x (Or.inr (Or.inr (Or.inr hx)))
  -- a leaf that is no sibling had enough already
  · rw [hred.header]
    refine h.half_beside w hs fun x hx => ?_
    simp only [List.mem_cons, List.not_mem_nil, or_false] at hx
    rcases hx with rfl | rfl
    · exact (hmin _ (by simp)).1
    · exact (hmin fs.length (by simp)).1

/-- Joining two leaves: the shape with one leaf less, and perhaps an underfull parent. -/
theorem shape_of_coalesced (h : UnderfullLeaf cmp zeroKey Q t A s B (P :: Ps))
    (w : Window (A ++ s :: B) P SA l r SB PA y PB ia ib) {t₁ : BplusTree K V}
    (hco : Coalesced leafHandler t t₁ l r y ia ib (nextPage bpInvalidPageNum SB)) :
    let segs := SA ++ [⟨l.sep, l.page, l.items ++ r.items⟩] ++ SB
    let y' : Seg K PageNum := ⟨y.sep, y.page, ia ++ [l.head] ++ ib⟩
    Underfull cmp zeroKey Q t₁ (segs.map Seg.head) PA y' PB Ps ∧
      LeafChain t₁ bpInvalidPageNum segs ∧ Fenced cmp Seg.sep Seg.keys segs ∧
      (∀ x ∈ segs, ∀ k ∈ x.keys, Q k) ∧ (∀ x ∈ segs.tail, Q x.sep) ∧
      segs.flatMap Seg.items = (A ++ s :: B).flatMap Seg.items := by
  intro segs y'
  have hnd := h.nodup
  have hf := h.fenced
  have hQ := h.keysQ
  have hseps := h.sepsQ
  rw [w.nodes] at hf hQ hseps
  -- the leaf on the left takes over the link of the one on the right
  have hchain : LeafChain t₁ bpInvalidPageNum segs := by
    rw [show segs = SA ++ ([⟨l.sep, l.page, l.items ++ r.items⟩] ++ SB) from List.append_assoc _ _ _]
    exact h.leaves_after w ⟨hco.bodyL, trivial⟩ rfl hco.body
  have hfenced : Fenced cmp Seg.sep Seg.keys segs := by
    have hm := hf.merge (s := ⟨l.sep, l.page, l.items ++ r.items⟩) rfl (by simp [Seg.keys])
    simpa [segs] using hm
  have hsepsQ : ∀ x ∈ segs.tail, Q x.sep := by
    intro x hx
    cases SA with
    | nil => exact hseps x (List.mem_cons_of_mem _ hx)
    | cons a SA =>
      simp only [segs, List.cons_append, List.tail_cons, List.mem_append, List.mem_cons,
        List.not_mem_nil, or_false] at hx hseps
      rcases hx with (hx | rfl) | hx
      · exact hseps x (Or.inl hx)
      · exact hseps l (Or.inr (Or.inl rfl))
      · exact hseps x (Or.inr (Or.inr (Or.inr hx)))
  refine ⟨⟨?_, ?_, ?_, ?_, ?_, ?_, ?_⟩, hchain, hfenced, ?_, hsepsQ, ?_⟩
  -- the parent loses a child, so it may be underfull: the levels above it are the next call's
  · simpa [segs, y'] using hco.levels w h.levels hnd (h.siblings w).neLR fun _ _ => nofun
  · rw [hco.header]
    have hP := h.sizes.1
    rw [w.parents] at hP
    exact hP.lose rfl (by simp [y', w.items]; omega)
  · rw [hco.header]
    exact h.sizes.2
  · exact hfenced.sep_tailSorted Seg.page
  · have hsub : (segs.map Seg.page ++ pages ((PA ++ y' :: PB) :: Ps)).Sublist
        ((A ++ s :: B).map Seg.page ++ pages (P :: Ps)) := by
      rw [w.nodes, w.parents]
      simp only [segs, y', pages_cons, List.map_append, List.map_cons, List.append_assoc,
        List.cons_append, List.nil_append]
      exact List.Sublist.append_left (List.Sublist.cons_cons _ (List.sublist_cons_self _ _)) _
    -- the pages that are left were there before
    rw [map_snd_head]
    exact hsub.nodup hnd
  · intro z hz
    obtain ⟨x, hx, rfl⟩ := List.mem_map.mp hz
    exact hchain.isSome_body x hx
  · intro z hz
    rw [← List.map_tail] at hz
    obtain ⟨x, hx, rfl⟩ := List.mem_map.mp hz
    exact hsepsQ x hx
  · intro x hx k hk
    simp only [segs, List.mem_append, List.mem_cons, List.not_mem_nil, or_false] at hx
    rcases hx with (hx | rfl) | hx
    · exact hQ x (by simp [hx]) k hk
    · rw [Seg.keys, List.map_append, List.mem_append] at hk
      rcases hk with hk | hk
      · exact hQ l (by simp) k hk
      · exact hQ r (by simp) k hk
    · exact hQ x (by simp [hx]) k hk
  · rw [w.nodes]
    simp [segs]

omit [Std.TransCmp cmp] in
/-- The leaf turns out to have enough entries. -/
theorem treeInv_of_enough (h : UnderfullLeaf cmp zeroKey Q t A s B Ls)
    (hmin : t.fileHeader.minSize true ≤ s.items.length) :
    TreeInv cmp zeroKey Q t (A ++ s :: B) Ls := by
  refine ⟨h.toTreeShape, fun hne x hx => ?_⟩
  have hx' := h.half hne x hx
  have hmin' : t.fileHeader.minSize true
      = t.fileHeader.leafMaxSize - t.fileHeader.leafMaxSize / 2 := rfl
  split at hx'
  · rename_i hpage
    have hnd := (List.nodup_append.mp h.nodup).1
    have hxs : x = s := by
      by_contra hne
      refine ne_of_nodup_append_cons (x := x) hnd ?_ hpage.symm
      simp only [List.mem_append, List.mem_cons] at hx
      tauto
    rw [hxs]
    omega
  · exact hx'

/-- **Rebalancing a leaf.**  The code finds the leaf in its parent, repairs the tree and keeps the
    entries. -/
theorem spec (h : UnderfullLeaf cmp zeroKey Q t A s B (P :: Ps))
    (hcap : Capacity cmp zeroKey Q t.fileHeader) {fuel : Nat} (hfuel : Ps.length + 1 < fuel) :
    ∃ t' segs Ls', coalesceOrRedistribute cmp fuel t s.page = .ok t' ∧
      TreeInv cmp zeroKey Q t' segs Ls' ∧
      segs.flatMap Seg.items = (A ++ s :: B).flatMap Seg.items ∧
      t'.fileHeader.leafMaxSize = t.fileHeader.leafMaxSize ∧
      t'.fileHeader.internalMaxSize = t.fileHeader.internalMaxSize := by
  obtain ⟨fuel, rfl⟩ : ∃ n, fuel = n + 1 := ⟨fuel - 1, by omega⟩
  have h4 := hcap.leaf
  have hbody := h.leaves.body
  have hmin : t.fileHeader.minSize true
      = t.fileHeader.leafMaxSize - t.fileHeader.leafMaxSize / 2 := rfl
  have hhalf := h.half (by simp) s (by simp)
  rw [if_pos rfl] at hhalf
  -- either the leaf has too little and a neighbour helps, or there is nothing to do
  rcases Nat.lt_or_ge s.items.length (t.fileHeader.minSize true) with hsmall | hbig
  · obtain ⟨init, e, hi⟩ : ∃ init e, s.items = init ++ [e] := by
      rcases List.eq_nil_or_concat s.items with hn | ⟨init, e, hi⟩
      · exact absurd (by simp [Seg.keys, hn]) (h.fenced.nonempty s (by simp))
      · exact ⟨init, e, by rw [hi, List.concat_eq_append]⟩
    have hin : InBlock cmp Seg.sep A s B e.1 := h.fenced.inBlock (by simp [Seg.keys, hi])
    have hP : ∀ y ∈ P, 2 ≤ y.items.length := by
      have h4' := hcap.internal.1
      intro y hy
      have := h.sizes.1 y hy
      split at this <;> simp at this <;> omega
    obtain ⟨SA, l, r, SB, PA, y, PB, ia, ib, w, hindex⟩ :=
      -- the parent's lookup of the last key finds the leaf itself, since the key is between its separators
      exists_window h.levels hP (h.fenced.sep_tailSorted Seg.page) hin.1 hin.2
    have hs : s = l ∨ s = r := hindex.imp And.left And.left
    have hyok := h.levels.1 y (by rw [w.parents]; simp)
    have hpar : t.parentOf s.page = some y.page := by
      rcases hs with rfl | rfl
      · exact hyok.parent s.head (by simp [w.items])
      · exact hyok.parent s.head (by simp [w.items])
    have hhl := h.half (by simp) l (by rw [w.nodes]; simp)
    have hhr := h.half (by simp) r (by rw [w.nodes]; simp)
    have hml := h.leafMax l (by rw [w.nodes]; simp)
    have hmr := h.leafMax r (by rw [w.nodes]; simp)
    have hlr := (h.siblings w).neLR
    rcases (h.siblings w).step fuel hi hindex w.items hpar hsmall with
      ⟨hover, t', es, fs, k, hcode, hred, hlen⟩ | ⟨hfits, t₁, hcode, hco⟩
    · -- borrowed
      rw [show t.fileHeader.maxSize leafHandler.isLeaf = t.fileHeader.leafMaxSize from rfl] at hover
      have hsize : ∀ n ∈ [es.length, fs.length], t.fileHeader.leafMaxSize / 2 ≤ n ∧
          n ≤ t.fileHeader.leafMaxSize := by
        simp only [List.mem_cons, List.not_mem_nil, or_false, forall_eq_or_imp, forall_eq]
        rcases hlen with ⟨rfl, h1, h2⟩ | ⟨rfl, h1, h2⟩ <;> omega
      have hes : es ≠ [] := by
        have := (hsize es.length (by simp)).1
        rintro rfl
        simp only [List.length_nil] at this
        omega
      refine ⟨t', _, _, hcode, h.treeInv_of_redistributed w hs hred hsize hes, ?_,
        by rw [hred.header], by rw [hred.header]⟩
      have : es ++ (fs ++ SB.flatMap Seg.items) = l.items ++ (r.items ++ SB.flatMap Seg.items) := by
        rw [← List.append_assoc, hred.items, List.append_assoc]
      rw [w.nodes]
      simp [this]
    · -- joined
      rw [show t.fileHeader.maxSize leafHandler.isLeaf = t.fileHeader.leafMaxSize from rfl] at hfits
      obtain ⟨hunder, hchain, hfenced, hkeysQ, hsepsQ, hflat⟩ := h.shape_of_coalesced w hco
      -- the call goes on with the parent
      obtain ⟨t', Ls', hcode', hlev, hsz, hfr⟩ := coalesceOrRedistribute_spec
        (by rw [hco.header]; exact hcap.internal) (show Ps.length < fuel by omega) hunder
      rw [map_snd_head] at hfr
      have hnd := hunder.nodup
      rw [map_snd_head, List.nodup_append] at hnd
      have hpages : ∀ x ∈ SA ++ [⟨l.sep, l.page, l.items ++ r.items⟩] ++ SB,
          (t₁.body x.page).isSome ∧ x.page ∉ pages ((PA ++ ⟨y.sep, y.page, ia ++ [l.head] ++ ib⟩ ::
            PB) :: Ps) := fun x hx =>
        ⟨hchain.isSome_body x hx, fun hp => hnd.2.2 _ (List.mem_map_of_mem hx) _ hp rfl⟩
      have hheader : t'.fileHeader.leafMaxSize = t.fileHeader.leafMaxSize := by
        rw [hfr.leafMaxSize, hco.header]
      refine ⟨t', _, Ls', hcode.trans hcode', ⟨⟨hlev, hsz, hchain.congr fun x hx =>
        hfr.body _ (hpages x hx).1 (hpages x hx).2, hfenced, ?_, ?_, hkeysQ, hsepsQ⟩, fun _ => ?_⟩,
        hflat, hheader, by rw [hfr.internalMaxSize, hco.header]⟩
      -- a page of the levels above that is new was free, and no leaf is free
      · refine List.nodup_append.mpr ⟨hnd.1, hfr.nodup, fun p hp q hq hpq => ?_⟩
        obtain ⟨x, hx, rfl⟩ := List.mem_map.mp hp
        rcases hfr.fresh q hq with h' | h'
        · exact (hpages x hx).2 (hpq ▸ h')
        · have := (hpages x hx).1
          rw [hpq, h'] at this
          cases this
      · rw [hheader]
        have hmax := h.leafMax
        rw [w.nodes] at hmax
        intro x hx
        simp only [List.mem_append, List.mem_cons, List.not_mem_nil, or_false] at hx
        rcases hx with (hx | rfl) | hx
        · exact hmax x (by simp [hx])
        · simpa using hfits
        · exact hmax x (by simp [hx])
      · rw [hheader]
        -- two leaves that fit into one have together at least the minimum
        refine h.half_beside w hs fun x hx => ?_
        rw [List.mem_singleton.mp hx, List.length_append]
        rcases hs with rfl | rfl
        · rw [if_neg hlr] at hhr
          omega
        · rw [if_neg hlr.symm] at hhl
          omega
  · exact ⟨t, _, _, coalesceOrRedistribute_enough (H := leafHandler) fuel hbody hbig,
      h.treeInv_of_enough hbig, rfl, rfl, rfl⟩

end UnderfullLeaf

/-! ## `delete_entry` -/

section DeleteEntry

variable {A B : List (Seg K V)} {s : Seg K V} {Ls : List (Level K)} {pre post : List (K × V)}
  {e : K × V}

/-- The leaf without the entry. -/
theorem fenced_remove (h : Fenced cmp Seg.sep Seg.keys (A ++ s :: B)) (hi : s.items = pre ++ e :: post)
    (hne : pre ++ post ≠ []) :
    Fenced cmp Seg.sep Seg.keys (A ++ ⟨s.sep, s.page, pre ++ post⟩ :: B) := by
  have hsub : (pre ++ post).Sublist s.items := by
    rw [hi]
    exact List.Sublist.append_left (List.sublist_cons_self _ _) _
  refine h.replace rfl ?_ (by simpa [Seg.keys] using hne) fun x hx => ?_
  · exact (h.sorted s (by simp)).sublist (hsub.map Prod.fst)
  · exact h.inBlock ((hsub.map Prod.fst).subset hx)

/-- The shape after an entry has been taken out of a leaf that keeps others. -/
theorem TreeInv.remove (h : TreeInv cmp zeroKey Q t (A ++ s :: B) Ls)
    (hi : s.items = pre ++ e :: post) (hne : pre ++ post ≠ []) :
    UnderfullLeaf cmp zeroKey Q
      (t.setBody s.page (.leaf (nextPage bpInvalidPageNum B) (pre ++ post)))
      A ⟨s.sep, s.page, pre ++ post⟩ B Ls := by
  refine ⟨h.setLeaf (by rfl) (by rfl) (fenced_remove h.fenced hi hne) ?_ fun k hk => ?_,
    fun hLs x hx => ?_⟩
  · have := h.leafMax s (by simp)
    simp only [hi, List.length_append, List.length_cons] at this ⊢
    omega
  · refine h.keysQ s (by simp) k ?_
    simp only [Seg.keys, hi, List.map_append, List.map_cons, List.mem_append, List.mem_cons] at hk ⊢
    tauto
  · rcases List.mem_append.mp hx with hx | hx
    · exact Nat.le_add_right_of_le (h.leafMin hLs x (by simp [hx]))
    rcases List.mem_cons.mp hx with rfl | hx
    · have := h.leafMin hLs s (by simp)
      simp only [hi, List.length_append, List.length_cons, fileHeader_setBody, if_true] at this ⊢
      omega
    · exact Nat.le_add_right_of_le (h.leafMin hLs x (by simp [hx]))

/-- `delete_entry_internal` on the leaf that holds the key. -/
theorem deleteEntryInternal_found {key : K} (h : TreeInv cmp zeroKey Q t (A ++ s :: B) Ls)
    (hcap : Capacity cmp zeroKey Q t.fileHeader) (hi : s.items = pre ++ e :: post)
    (hlook : leafLookup cmp (pre ++ e :: post) key = (pre.length, true)) :
    ∃ t', t.deleteEntryInternal cmp s.page key = .ok (.success, t') ∧
      IsTree cmp zeroKey Q t' (A.flatMap Seg.items ++ (pre ++ post) ++ B.flatMap Seg.items) ∧
      t'.fileHeader.leafMaxSize = t.fileHeader.leafMaxSize ∧
      t'.fileHeader.internalMaxSize = t.fileHeader.internalMaxSize := by
  have hbody := h.leaves.body
  have hpage : (t.body s.page).isSome := h.leaves.isSome_body s (by simp)
  let t₁ := t.setBody s.page (.leaf (nextPage bpInvalidPageNum B) (pre ++ post))
  have hbody₁ : t₁.body s.page = some (.leaf (nextPage bpInvalidPageNum B) (pre ++ post)) := by
    rw [body_setBody, if_pos rfl, hbody]
    rfl
  have hmin : t₁.fileHeader.minSize true
      = t.fileHeader.leafMaxSize - t.fileHeader.leafMaxSize / 2 := rfl
  have h4 := hcap.leaf
  have hcode : t.deleteEntryInternal cmp s.page key =
      if t₁.fileHeader.minSize true ≤ (pre ++ post).length then .ok (.success, t₁)
      else do
        let t' ← coalesceOrRedistribute cmp t.pool.pageCount t₁ s.page
        return (.success, t') := by
    rw [deleteEntryInternal, getLeaf_eq hbody]
    simp only [bind, Except.bind, hi, hlook, Bool.not_true, Bool.false_eq_true, if_false,
      recoverRemoveItem_append]
    rfl
  have hflat : (A ++ ⟨s.sep, s.page, pre ++ post⟩ :: B).flatMap Seg.items
      = A.flatMap Seg.items ++ (pre ++ post) ++ B.flatMap Seg.items := by simp
  by_cases henough : t₁.fileHeader.minSize true ≤ (pre ++ post).length
  · have hne : pre ++ post ≠ [] := by
      intro hn
      rw [hn, hmin, List.length_nil] at henough
      omega
    refine ⟨t₁, by rw [hcode, if_pos henough], Or.inr ⟨_, Ls, ?_, hflat⟩, rfl, rfl⟩
    exact (h.remove hi hne).treeInv_of_enough henough
  rw [if_neg henough] at hcode
  obtain ⟨n, hn⟩ := h.fuel
  cases Ls with
  | cons P Ps =>
    have hne : pre ++ post ≠ [] := by
      have := h.leafMin (by simp) s (by simp)
      intro hn
      rw [List.append_eq_nil_iff] at hn
      simp only [hi, hn.1, hn.2, List.nil_append, List.length_cons, List.length_nil] at this
      omega
    obtain ⟨t', segs, Ls', hcode', hinv, hsegs, hl, hm⟩ := (h.remove hi hne).spec hcap
      (show Ps.length + 1 < t.pool.pageCount by rw [hn, List.length_cons]; omega)
    refine ⟨t', ?_, Or.inr ⟨segs, Ls', hinv, hsegs.trans hflat⟩, hl, hm⟩
    rw [hcode, hcode']
    rfl
  | nil =>
    -- the root is a leaf
    obtain ⟨hroot, hparent⟩ := h.levels
    rw [List.map_append, List.map_cons] at hroot
    obtain ⟨hA, hhead, hB⟩ := append_cons_eq_singleton hroot
    obtain rfl := List.map_eq_nil_iff.mp hA
    obtain rfl := List.map_eq_nil_iff.mp hB
    obtain ⟨-, hpg⟩ := Prod.mk.inj hhead
    rw [← hpg] at hparent
    have hparent₁ : t₁.parentOf s.page = some bpInvalidPageNum := by rw [parentOf_setBody, hparent]
    have hadjust : coalesceOrRedistribute cmp t.pool.pageCount t₁ s.page
        = if (pre ++ post).length > 0 then .ok t₁
          else .ok ((t₁.updateRootPageNum bpInvalidPageNum).disposePage s.page) := by
      rw [hn, List.length_nil, Nat.add_zero, coalesceOrRedistribute, getPage_eq hbody₁ hparent₁]
      simp only [bind, Except.bind, NodeBody.size, NodeBody.isLeaf, ge_iff_le, henough, if_false,
        if_true]
      by_cases hpos : (pre ++ post).length > 0
      · rw [if_pos hpos]
        by_cases hgt : (pre ++ post).length > 1
        · simp only [hgt, if_true]
          rfl
        · simp only [hgt, if_false]
          rw [adjustRoot, getPage_eq hbody₁ hparent₁]
          simp only [bind, Except.bind, hpos, if_true]
          rfl
      · have hle : ¬ (pre ++ post).length > 1 := by omega
        simp only [hle, hpos, if_false]
        rw [adjustRoot, getPage_eq hbody₁ hparent₁]
        simp only [bind, Except.bind, hpos, if_false]
        rfl
    rw [hadjust] at hcode
    by_cases hne : pre ++ post = []
    · refine ⟨(t₁.updateRootPageNum bpInvalidPageNum).disposePage s.page, ?_,
        Or.inl ⟨rfl, by simp [hne]⟩, rfl, rfl⟩
      rw [hcode, hne]
      rfl
    · have hpos : (pre ++ post).length > 0 := List.length_pos_of_ne_nil hne
      refine ⟨t₁, ?_, Or.inr ⟨_, [], ⟨(h.remove hi hne).toTreeShape, fun h' => absurd rfl h'⟩,
        hflat⟩, rfl, rfl⟩
      rw [hcode, if_pos hpos]
      rfl

/-- **`delete_entry`.**  On a well-formed tree it either finds no entry with the key and changes
    nothing, or takes the entry out. -/
theorem deleteEntry_spec {es : List (K × V)} (key : K) (h : IsTree cmp zeroKey Q t es)
    (hcap : Capacity cmp zeroKey Q t.fileHeader) :
    ((∀ e ∈ es, cmp e.1 key ≠ .eq) ∧ t.deleteEntry cmp key = .ok (.recordNotExist, t)) ∨
    ∃ pre e post t', es = pre ++ e :: post ∧ cmp e.1 key = .eq ∧
      t.deleteEntry cmp key = .ok (.success, t') ∧ IsTree cmp zeroKey Q t' (pre ++ post) ∧
      t'.fileHeader.leafMaxSize = t.fileHeader.leafMaxSize ∧
      t'.fileHeader.internalMaxSize = t.fileHeader.internalMaxSize := by
  rcases h with ⟨hempty, rfl⟩ | ⟨segs, Ls, h, rfl⟩
  -- the empty tree has no leaf to look in
  · refine Or.inl ⟨fun e he => absurd he List.not_mem_nil, ?_⟩
    rw [deleteEntry, findLeaf, findLeafInternal, hempty]
    rfl
  obtain ⟨A, s, B, rfl, hin, hfind⟩ := h.exists_findLeaf key
  have hcode : t.deleteEntry cmp key = t.deleteEntryInternal cmp s.page key := by
    rw [deleteEntry, hfind]
    rfl
  have hs : s.items.Pairwise fun a b => cmp a.1 b.1 = .lt :=
    List.pairwise_map.mp (h.fenced.sorted s (by simp))
  -- the leaf that was found has the key, or no leaf has it
  rcases leafLookup_cases hs key with ⟨pre, e, post, hi, he, hlook⟩ | ⟨pre, post, hi, hpre, hpost, hlook⟩
  · rw [hi] at hlook
    obtain ⟨t', hcode', htree, hl, hm⟩ := deleteEntryInternal_found h hcap hi hlook
    exact Or.inr ⟨A.flatMap Seg.items ++ pre, e, post ++ B.flatMap Seg.items, t', by simp [hi], he,
      hcode.trans hcode', by simpa using htree, hl, hm⟩
  -- the other leaves hold smaller or greater keys
  · refine Or.inl ⟨fun e he => ?_, ?_⟩
    · simp only [List.flatMap_append, List.flatMap_cons, hi, List.mem_append, List.mem_flatMap] at he
      have hlt : cmp e.1 key = .lt ∨ cmp key e.1 = .lt := by
        rcases he with ⟨a, ha, he⟩ | (he | he) | ⟨b, hb, he⟩
        · exact Or.inl (hin.left_lt h.fenced a ha e.1 (List.mem_map_of_mem he))
        · exact Or.inl (hpre e he)
        · exact Or.inr (hpost e he)
        · exact Or.inr ((hin.lt_right h.fenced b hb).2 e.1 (List.mem_map_of_mem he))
      rcases hlt with hlt | hlt
      · rw [hlt]
        rintro ⟨⟩
      · rw [gt_of_lt hlt]
        rintro ⟨⟩
    · rw [hcode, deleteEntryInternal, getLeaf_eq h.leaves.body]
      simp only [bind, Except.bind, hlook]
      rfl

end DeleteEntry

end Miniob.Index
