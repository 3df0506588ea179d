/-
  `coalesce_or_redistribute` on the internal levels.

  A node that has lost an item may be one short of half full (`Underfull`).  It either has enough
  items by the code's own bound, or it is the root and perhaps hands the tree to its only child, or
  one step with a neighbour repairs it; joining two nodes takes an item from their parent, which is
  then the underfull node of the next level.  The induction is on the levels, and the items below
  the first of them never change.
-/
import Miniob.Index.Rebalance

namespace Miniob.Index

open Miniob.Common Miniob.Storage BplusTree

variable {K V : Type}

/-- Node `x` of the first level may have lost an item. -/
structure Underfull (cmp : K → K → Ordering) (zeroKey : K) (Q : K → Prop) (t : BplusTree K V)
    (Z : List (K × PageNum)) (LA : Level K) (x : Seg K PageNum) (LB : Level K)
    (Ls : List (Level K)) : Prop where
  /-- The levels fit, with `x` among them. -/
  levels : Levels zeroKey t Z ((LA ++ x :: LB) :: Ls)
  /-- `x` may be too small, the others of its level are not. -/
  weak : SizesOK t.fileHeader.internalMaxSize (some x.page) (LA ++ x :: LB) Ls.isEmpty
  /-- The levels above are of the right sizes. -/
  sizes : Sizes t.fileHeader.internalMaxSize Ls
  /-- The keys below are in order. -/
  sorted : TailSorted cmp Z
  /-- No page is listed twice. -/
  nodup : (Z.map Prod.snd ++ pages ((LA ++ x :: LB) :: Ls)).Nodup
  /-- The pages below exist. -/
  isSome : ∀ z ∈ Z, (t.body z.2).isSome
  sepsQ : ∀ z ∈ Z.tail, Q z.1

/-- The capacities the rebalancing of internal nodes needs, for keys with property `Q`: half of the
    capacity is at least 3, or at least 2 and no key is below the zero key. -/
def InternalCapacity (cmp : K → K → Ordering) (zeroKey : K) (Q : K → Prop) (maxSize : Nat) : Prop :=
  4 ≤ maxSize ∧ (6 ≤ maxSize ∨ ∀ k, Q k → cmp zeroKey k = .lt)

namespace Underfull

variable {cmp : K → K → Ordering} [Std.TransCmp cmp] {zeroKey : K} {Q : K → Prop}
  {t : BplusTree K V} {Z : List (K × PageNum)} {LA LB : Level K} {x : Seg K PageNum}
  {Ls : List (Level K)}

/-- The last key of the node belongs below the node's own separator: it is a live separator, or the
    zero key of the left spine in front of keys that are all above it. -/
theorem lastKey_position (h : Underfull cmp zeroKey Q t Z LA x LB Ls)
    (hcap : InternalCapacity cmp zeroKey Q t.fileHeader.internalMaxSize)
    {init : List (K × PageNum)} {e : K × PageNum} (hi : x.items = init ++ [e]) :
    (LA ≠ [] → cmp e.1 x.sep ≠ .lt) ∧ ∀ b ∈ LB.head?, cmp e.1 b.sep = .lt := by
  -- the first level lists what is below it in the order of the keys
  obtain ⟨hok, hZ, hup⟩ := h.levels
  have hs := h.sorted
  rw [← hZ] at hs
  refine position_up hok hs hi (fun _ => lt_irrefl e.1) fun b hb => ?_
  have hb' : b ∈ LB.flatMap Seg.items := List.mem_of_mem_head? hb
  have hcut : (LA ++ x :: LB).flatMap Seg.items
      = (LA.flatMap Seg.items ++ init) ++ e :: LB.flatMap Seg.items := by simp [hi]
  by_cases hne : LA.flatMap Seg.items ++ init = []
  · -- the node is the leftmost one and has one item
    obtain ⟨-, rfl⟩ := List.append_eq_nil_iff.mp hne
    rw [hcut, hne, List.nil_append] at hZ
    have he : e.1 = zeroKey := by
      have := h.levels.head_eq_zeroKey
      rw [← hZ, List.head?_cons, Option.map_some] at this
      exact Option.some.inj this
    have hQb : Q b.1 := h.sepsQ b (by rw [← hZ]; exact hb')
    rcases hcap.2 with h6 | hzero
    · exfalso
      have hw := h.weak x (by simp)
      rw [hi, if_pos rfl] at hw
      cases Ls with
      | nil =>
        have hlen := congrArg List.length hup.1
        cases LB with
        | nil => cases hb'
        | cons c LB => simp at hlen; omega
      | cons P Ps =>
        simp at hw
        omega
    · rw [he]
      exact hzero b.1 hQb
  · rw [hcut] at hs
    exact hs.lt_right hne b hb'

omit [Std.TransCmp cmp] in
/-- The node turns out to have enough items. -/
theorem toSizes (h : Underfull cmp zeroKey Q t Z LA x LB Ls)
    (hx : (if Ls.isEmpty then 2 else t.fileHeader.internalMaxSize / 2) ≤ x.items.length) :
    Sizes t.fileHeader.internalMaxSize ((LA ++ x :: LB) :: Ls) := by
  refine ⟨fun z hz => ?_, h.sizes⟩
  have hw := h.weak z hz
  refine ⟨?_, hw.2⟩
  have hnd := (List.nodup_append.mp (List.nodup_append.mp h.nodup).2.1).1
  simp only [List.mem_append, List.mem_cons] at hz
  rcases hz with hz | rfl | hz
  · have hne : x.page ≠ z.page := (ne_of_nodup_append_cons hnd (Or.inl hz)).symm
    simpa [hne] using hw.1
  · simpa using hx
  · have hne : x.page ≠ z.page := (ne_of_nodup_append_cons hnd (Or.inr hz)).symm
    simpa [hne] using hw.1

/-- What the rebalancing of the levels `(LA ++ x :: LB) :: Ls` over `Z` leaves. -/
def Repaired (zeroKey : K) (t t' : BplusTree K V) (Z : List (K × PageNum)) (Ls Ls' : List (Level K)) :
    Prop :=
  Levels zeroKey t' Z Ls' ∧ Sizes t'.fileHeader.internalMaxSize Ls' ∧
    LevelsFrame t t' (Z.map Prod.snd) Ls Ls'

omit [Std.TransCmp cmp] in
theorem repaired_self (h : Underfull cmp zeroKey Q t Z LA x LB Ls)
    (hx : (if Ls.isEmpty then 2 else t.fileHeader.internalMaxSize / 2) ≤ x.items.length) :
    Repaired zeroKey t t Z ((LA ++ x :: LB) :: Ls) ((LA ++ x :: LB) :: Ls) :=
  ⟨h.levels, h.toSizes hx, rfl, rfl, fun _ _ _ => rfl, fun _ _ _ _ => rfl, fun _ hp => Or.inl hp,
    (List.nodup_append.mp h.nodup).2.1⟩

omit [Std.TransCmp cmp] in
/-- The root: it stays, or its only child becomes the root. -/
theorem spec_root (h : Underfull cmp zeroKey Q t Z LA x LB [])
    (hcap : 4 ≤ t.fileHeader.internalMaxSize) (fuel : Nat) :
    ∃ t' Ls', coalesceOrRedistribute cmp (fuel + 1) t x.page = .ok t' ∧
      Repaired zeroKey t t' Z [LA ++ x :: LB] Ls' := by
  obtain ⟨hok, hZ, hroot, hparent⟩ := id h.levels
  rw [List.map_append, List.map_cons] at hroot
  obtain ⟨hLA, hhead, hLB⟩ := append_cons_eq_singleton hroot
  obtain rfl := List.map_eq_nil_iff.mp hLA
  obtain rfl := List.map_eq_nil_iff.mp hLB
  obtain ⟨hsep, hpage⟩ := Prod.mk.inj hhead
  have hxok := hok x (by simp)
  rw [← hpage] at hparent
  have hweak := (h.weak x (by simp)).1
  have hmin : t.fileHeader.minSize false
      = t.fileHeader.internalMaxSize - t.fileHeader.internalMaxSize / 2 := rfl
  -- the root is the only node of its level: it goes when one child is left, which becomes the root
  rcases Nat.lt_or_ge x.items.length 2 with hone | htwo
  · -- one child left
    obtain ⟨c, rest, hi⟩ := hxok.items_eq
    have hrest : rest = [] := by
      rw [hi, List.length_cons] at hone
      exact List.eq_nil_of_length_eq_zero (by omega)
    subst hrest
    have hZ' : Z = [(zeroKey, c)] := by
      rw [← hZ, ← hsep]
      simp [hi]
    have hc : (t.body c).isSome := h.isSome (zeroKey, c) (by simp [hZ'])
    have hcx : c ≠ x.page := by
      -- a child is no page of the levels
      rintro rfl
      have := (List.nodup_append.mp h.nodup).2.2 x.page (by simp [hZ']) x.page (by simp)
      exact this rfl
    refine ⟨((t.setParent c bpInvalidPageNum).updateRootPageNum c).disposePage x.page, [], ?_,
      ⟨hZ', ?_⟩, trivial, rfl, rfl, fun p hp hps => ?_, fun p hp hps hpx => ?_, nofun,
      List.nodup_nil⟩
    · have hsmall : ¬ x.items.length ≥ t.fileHeader.minSize false := by
        rw [hmin]
        omega
      rw [coalesceOrRedistribute, getPage_eq hxok.body hparent]
      simp only [bind, Except.bind, NodeBody.size, NodeBody.isLeaf, hsmall, if_false, if_true,
        Nat.not_lt.mpr (Nat.le_of_lt_succ hone)]
      rw [adjustRoot, getPage_eq hxok.body hparent]
      simp only [bind, Except.bind, hi]
      rw [show valueAt [(x.sep, c)] 0 = .ok c from rfl]
      simp only [setParentPageNum_eq bpInvalidPageNum hc]
      rfl
    · obtain ⟨b, hb⟩ := Option.isSome_iff_exists.mp hc
      obtain ⟨q, hq⟩ := exists_parentOf hb
      rw [fileHeader_disposePage, fileHeader_updateRootPageNum, parentOf_disposePage, if_neg hcx,
        parentOf_updateRootPageNum, parentOf_setParent, if_pos rfl, hq]
      rfl
    · rw [body_disposePage, if_neg (by simpa [pages] using hps), body_updateRootPageNum,
        body_setParent]
    · rw [parentOf_disposePage, if_neg (by simpa [pages] using hpx), parentOf_updateRootPageNum,
        parentOf_setParent, if_neg (by simpa [hZ'] using hps)]
  -- a root with two children or more stays
  · refine ⟨t, _, ?_, h.repaired_self (by simpa using htwo)⟩
    rw [coalesceOrRedistribute, getPage_eq hxok.body hparent]
    simp only [bind, Except.bind, NodeBody.size, NodeBody.isLeaf, if_true]
    split
    · rfl
    · simp only [show x.items.length > 1 from htwo, if_true]
      rfl

/-! ## A step below the root -/

section Step

variable {P : Level K} {Ps : List (Level K)} {SA SB PA PB : Level K} {l r y : Seg K PageNum}
  {ia ib : List (K × PageNum)}

/-- The facts about a window of an internal level that its step uses. -/
structure Facts (t : BplusTree K V) (Z : List (K × PageNum)) (S P : Level K)
    (l r y : Seg K PageNum) (Ps : List (Level K)) : Prop where
  nodeL : NodeOK t l
  nodeR : NodeOK t r
  nodeY : NodeOK t y
  pageL : l.page ∈ S.map Seg.page
  pageR : r.page ∈ S.map Seg.page
  pageY : y.page ∈ P.map Seg.page
  children : ∀ c ∈ l.items ++ r.items, c.2 ∈ Z.map Prod.snd
  disjoint : ∀ p ∈ pages (S :: P :: Ps), p ∉ Z.map Prod.snd

omit [Std.TransCmp cmp] in
theorem facts (h : Underfull cmp zeroKey Q t Z LA x LB (P :: Ps))
    (w : Window (LA ++ x :: LB) P SA l r SB PA y PB ia ib) :
    Facts t Z (LA ++ x :: LB) P l r y Ps := by
  obtain ⟨hok, hZ, hokP, -, -⟩ := h.levels
  have hl : l ∈ LA ++ x :: LB := by rw [w.nodes]; simp
  have hr : r ∈ LA ++ x :: LB := by rw [w.nodes]; simp
  have hy : y ∈ P := by rw [w.parents]; simp
  refine ⟨hok l hl, hok r hr, hokP y hy, List.mem_map_of_mem hl, List.mem_map_of_mem hr,
    List.mem_map_of_mem hy, fun c hc => List.mem_map_of_mem ?_, fun p hp hpZ =>
      (List.nodup_append.mp h.nodup).2.2 p hpZ p hp rfl⟩
  rw [← hZ, List.mem_flatMap]
  rcases List.mem_append.mp hc with hc | hc
  · exact ⟨l, hl, hc⟩
  · exact ⟨r, hr, hc⟩

omit [Std.TransCmp cmp] in
theorem siblings (h : Underfull cmp zeroKey Q t Z LA x LB (P :: Ps))
    (w : Window (LA ++ x :: LB) P SA l r SB PA y PB ia ib) :
    Siblings internalHandler t l r y ia ib bpInvalidPageNum bpInvalidPageNum := by
  have hf := h.facts w
  have hnd := h.nodup
  rw [pages_cons, List.nodup_append, List.nodup_append] at hnd
  obtain ⟨hndZ, ⟨hndS, -, hdisS⟩, -⟩ := hnd
  have hsub : (l.items ++ r.items).Sublist Z := by
    rw [← h.levels.2.1, w.nodes]
    simp only [List.flatMap_append, List.flatMap_cons]
    rw [← List.append_assoc l.items]
    exact (List.sublist_append_left _ _).trans (List.sublist_append_right _ _)
  have hndc := (hsub.map Prod.snd).nodup hndZ
  rw [List.map_append, List.nodup_append] at hndc
  have hneY : ∀ p ∈ (LA ++ x :: LB).map Seg.page, p ≠ y.page := fun p hp =>
    hdisS p hp y.page (by rw [pages_cons]; exact List.mem_append_left _ hf.pageY)
  refine ⟨hf.nodeL.body, hf.nodeR.body, ?_, ?_, ?_, ?_, hneY _ hf.pageL, hneY _ hf.pageR, hndc.1,
    hndc.2.1, fun hr => ?_⟩
  · rw [hf.nodeY.body, w.items]
  · intro c hc
    obtain ⟨item, hitem, rfl⟩ := List.mem_map.mp hc
    exact hf.nodeL.parent item hitem
  · intro c hc
    obtain ⟨item, hitem, rfl⟩ := List.mem_map.mp hc
    exact hf.nodeR.parent item hitem
  · rw [w.nodes] at hndS
    exact (ne_of_nodup_append_cons hndS (Or.inr (by simp))).symm
  · obtain ⟨c, hc, hcr⟩ := List.mem_map.mp hr
    exact hf.disjoint r.page (by rw [pages_cons]; exact List.mem_append_left _ hf.pageR)
      (hcr ▸ hf.children c hc)

omit [Std.TransCmp cmp] in
/-- Pages of the items that a step moves are no pages of the levels. -/
theorem not_children (h : Underfull cmp zeroKey Q t Z LA x LB (P :: Ps))
    (w : Window (LA ++ x :: LB) P SA l r SB PA y PB ia ib) :
    ∀ p ∈ pages ((LA ++ x :: LB) :: P :: Ps),
      p ∉ internalHandler.children (V := V) (l.items ++ r.items) := by
  intro p hp hpc
  obtain ⟨c, hc, rfl⟩ := List.mem_map.mp hpc
  exact (h.facts w).disjoint _ hp ((h.facts w).children c hc)

omit [Std.TransCmp cmp] in
/-- The other nodes of the level keep their pages while the items of the window move. -/
theorem nodes_after (h : Underfull cmp zeroKey Q t Z LA x LB (P :: Ps))
    (w : Window (LA ++ x :: LB) P SA l r SB PA y PB ia ib) {t' : BplusTree K V} {M : Level K}
    (hM : ∀ z ∈ M, NodeOK t' z)
    (hbody : ∀ p, p ≠ l.page → p ≠ r.page → p ≠ y.page → t'.body p = t.body p)
    (hparent : ∀ p, p ≠ r.page → p ∉ internalHandler.children (V := V) (l.items ++ r.items) →
      t'.parentOf p = t.parentOf p) :
    ∀ z ∈ SA ++ M ++ SB, NodeOK t' z := by
  have hf := h.facts w
  have hnd := h.nodup
  rw [pages_cons, List.nodup_append, List.nodup_append] at hnd
  obtain ⟨hndZ, ⟨hndS, -, hdisS⟩, hdis⟩ := hnd
  obtain ⟨hok, hZ, -⟩ := h.levels
  have hS : LA ++ x :: LB = SA ++ [l, r] ++ SB := by rw [w.nodes]; simp
  rw [hS] at hok hndS hZ hdisS
  have hside : ∀ s, s ∈ SA ∨ s ∈ SB → s.page ≠ l.page ∧ s.page ≠ r.page := by
    intro s hs
    constructor
    · rw [show SA ++ [l, r] ++ SB = SA ++ l :: r :: SB by simp] at hndS
      exact ne_of_nodup_append_cons hndS (by rcases hs with hs | hs <;> simp [hs])
    · rw [show SA ++ [l, r] ++ SB = (SA ++ [l]) ++ r :: SB by simp] at hndS
      exact ne_of_nodup_append_cons hndS (by rcases hs with hs | hs <;> simp [hs])
  refine nodes_replace hok (W := l.items ++ r.items) ?_ hM (fun s hs => ?_) fun c hc hcw => ?_
  · rw [← hZ] at hndZ
    simpa using hndZ
  · refine hbody _ (hside s hs).1 (hside s hs).2 (hdisS _ ?_ _ ?_)
    · exact List.mem_map_of_mem (by rcases hs with hs | hs <;> simp [hs])
    · rw [pages_cons]
      exact List.mem_append_left _ hf.pageY
  · refine hparent _ ?_ hcw
    have hcZ : c ∈ Z := by
      rw [← hZ]
      simp only [List.flatMap_append, List.mem_append] at hc ⊢
      tauto
    refine hdis c.2 (List.mem_map_of_mem hcZ) r.page ?_
    exact List.mem_append_left _ hf.pageR

omit [Std.TransCmp cmp] in
/-- The sizes of the level after a step: the nodes beside the window were not short. -/
theorem sizes_after (h : Underfull cmp zeroKey Q t Z LA x LB (P :: Ps))
    (w : Window (LA ++ x :: LB) P SA l r SB PA y PB ia ib) (hx : x = l ∨ x = r) {M : Level K}
    (hM : ∀ z ∈ M, t.fileHeader.internalMaxSize / 2 ≤ z.items.length ∧
      z.items.length ≤ t.fileHeader.internalMaxSize) (hcap : 4 ≤ t.fileHeader.internalMaxSize)
    (b : Bool) : SizesOK t.fileHeader.internalMaxSize none (SA ++ M ++ SB) b := by
  have hnd := (List.nodup_append.mp (List.nodup_append.mp h.nodup).2.1).1
  have hweak := h.weak
  rw [w.nodes] at hnd hweak
  have hside : ∀ s, s ∈ SA ∨ s ∈ SB → x.page ≠ s.page := by
    intro s hs
    rcases hx with rfl | rfl
    · exact (ne_of_nodup_append_cons hnd (by rcases hs with hs | hs <;> simp [hs])).symm
    · rw [show SA ++ l :: x :: SB = (SA ++ [l]) ++ x :: SB by simp] at hnd
      exact (ne_of_nodup_append_cons hnd (by rcases hs with hs | hs <;> simp [hs])).symm
  refine SizesOK.of_half hcap b fun s hs => ?_
  simp only [List.mem_append] at hs
  rcases hs with (hs | hs) | hs
  · simpa [hside s (Or.inl hs)] using hweak s (by simp [hs])
  · exact hM s hs
  · simpa [hside s (Or.inr hs)] using hweak s (by simp [hs])

omit [Std.TransCmp cmp] in
/-- Borrowing an item repairs the levels. -/
theorem repaired_of_redistributed (h : Underfull cmp zeroKey Q t Z LA x LB (P :: Ps))
    (w : Window (LA ++ x :: LB) P SA l r SB PA y PB ia ib) (hx : x = l ∨ x = r)
    (hcap : 4 ≤ t.fileHeader.internalMaxSize) {t' : BplusTree K V} {nl nr : PageNum}
    {es fs : List (K × PageNum)} {k : K}
    (hred : Redistributed internalHandler t t' l r y ia ib nl nr es fs k) (hes : es ≠ [])
    (hsize : ∀ n ∈ [es.length, fs.length], t.fileHeader.internalMaxSize / 2 ≤ n ∧
      n ≤ t.fileHeader.internalMaxSize) :
    ∃ Ls', Repaired zeroKey t t' Z ((LA ++ x :: LB) :: P :: Ps) Ls' := by
  have hf := h.facts w
  have hnd := (List.nodup_append.mp h.nodup).2.1
  have hdis := h.not_children w
  rw [pages_cons] at hdis
  -- the two siblings after the move, and their parent with the new separator
  let M : Level K := [⟨l.sep, l.page, es⟩, ⟨k, r.page, fs⟩]
  let y' : Seg K PageNum := ⟨y.sep, y.page, ia ++ [l.head, (k, r.page)] ++ ib⟩
  have hM : ∀ z ∈ M, NodeOK t' z := by
    intro z hz
    simp only [M, List.mem_cons, List.not_mem_nil, or_false] at hz
    rcases hz with rfl | rfl
    · refine ⟨hred.bodyL, fun c hc => hred.childL _ (List.mem_map_of_mem hc), ?_⟩
      obtain ⟨e, es, rfl⟩ := List.exists_cons_of_ne_nil hes
      obtain ⟨c, rest, hl⟩ := hf.nodeL.items_eq
      have hitems := hred.items
      rw [hl, List.cons_append, List.cons_append, List.cons_eq_cons] at hitems
      simp [hitems.1]
    · exact ⟨hred.bodyR, fun c hc => hred.childR _ (List.mem_map_of_mem hc), hred.sep⟩
  have hpages : pages ((SA ++ M ++ SB) :: (PA ++ y' :: PB) :: Ps)
      = pages ((LA ++ x :: LB) :: P :: Ps) := by
    rw [w.nodes, w.parents]
    simp [M, y']
  -- the pages outside the levels are not among the three that have changed
  have hlyr : ∀ p, p ∉ pages ((LA ++ x :: LB) :: P :: Ps) → p ≠ l.page ∧ p ≠ r.page ∧ p ≠ y.page := by
    intro p hp
    rw [pages_cons, pages_cons] at hp
    refine ⟨?_, ?_, ?_⟩
    · rintro rfl
      exact hp (List.mem_append_left _ hf.pageL)
    · rintro rfl
      exact hp (List.mem_append_left _ hf.pageR)
    · rintro rfl
      exact hp (List.mem_append_right _ (List.mem_append_left _ hf.pageY))
  refine ⟨(SA ++ M ++ SB) :: (PA ++ y' :: PB) :: Ps,
    ⟨h.nodes_after w hM hred.body fun p _ hp => hred.parentOf p hp, ?_, ?_⟩, ⟨?_, ?_, ?_⟩, ?_⟩
  · rw [← h.levels.2.1, w.nodes]
    have : es ++ (fs ++ SB.flatMap Seg.items) = l.items ++ (r.items ++ SB.flatMap Seg.items) := by
      rw [← List.append_assoc, hred.items, List.append_assoc]
    simp [M, this]
  · have := hred.levels w h.levels.2.2 hnd hdis
    simpa [M, y'] using this
  · rw [hred.header]
    refine h.sizes_after w hx (fun z hz => ?_) hcap _
    simp only [M, List.mem_cons, List.not_mem_nil, or_false] at hz
    rcases hz with rfl | rfl
    · exact hsize _ (by simp)
    · exact hsize _ (by simp)
  · rw [hred.header]
    have hP := h.sizes.1
    rw [w.parents] at hP
    exact hP.set (by simp [y', w.items])
  · rw [hred.header]
    exact h.sizes.2
  -- nothing has been allocated or disposed of
  · refine ⟨by rw [hred.header], by rw [hred.header], fun p _ hp => ?_, fun p _ hpZ _ => ?_,
      fun p hp => Or.inl (hpages ▸ hp), hpages ▸ hnd⟩
    · obtain ⟨h1, h2, h3⟩ := hlyr p hp
      exact hred.body p h1 h2 h3
    · refine hred.parentOf p fun hp => hpZ ?_
      obtain ⟨c, hc, rfl⟩ := List.mem_map.mp hp
      exact hf.children c hc

omit [Std.TransCmp cmp] in
/-- Joining two nodes leaves a well-formed level and perhaps an underfull parent. -/
theorem underfull_of_coalesced (h : Underfull cmp zeroKey Q t Z LA x LB (P :: Ps))
    (w : Window (LA ++ x :: LB) P SA l r SB PA y PB ia ib) {t₁ : BplusTree K V} {nr : PageNum}
    (hco : Coalesced internalHandler t t₁ l r y ia ib nr) :
    let L' : Level K := SA ++ [⟨l.sep, l.page, l.items ++ r.items⟩] ++ SB
    let y' : Seg K PageNum := ⟨y.sep, y.page, ia ++ [l.head] ++ ib⟩
    (∀ z ∈ L', NodeOK t₁ z) ∧ L'.flatMap Seg.items = Z ∧
      Underfull cmp zeroKey Q t₁ (L'.map Seg.head) PA y' PB Ps ∧
      LevelsFrame t t₁ (Z.map Prod.snd) ((LA ++ x :: LB) :: P :: Ps)
        (L' :: (PA ++ y' :: PB) :: Ps) := by
  intro L' y'
  have hf := h.facts w
  have hnd := (List.nodup_append.mp h.nodup).2.1
  have hdis := h.not_children w
  rw [pages_cons] at hdis
  have hlr := (h.siblings w).neLR
  -- the node on the left has the children of both
  have hok : ∀ z ∈ L', NodeOK t₁ z := by
    refine h.nodes_after w (fun z hz => ?_) hco.body hco.parentOf
    rw [List.mem_singleton.mp hz]
    refine ⟨hco.bodyL, fun c hc => hco.childL _ (List.mem_map_of_mem hc), ?_⟩
    obtain ⟨c, rest, hl⟩ := hf.nodeL.items_eq
    simp [hl]
  have hflat : L'.flatMap Seg.items = Z := by
    rw [← h.levels.2.1, w.nodes]
    simp [L']
  -- one page is gone, and no other page is new
  have hsub : (pages (L' :: (PA ++ y' :: PB) :: Ps)).Sublist
      (pages ((LA ++ x :: LB) :: P :: Ps)) := by
    rw [w.nodes, w.parents]
    simp only [L', y', pages_cons, List.map_append, List.map_cons, List.append_assoc,
      List.cons_append, List.nil_append]
    refine List.Sublist.append_left (List.Sublist.cons_cons _ (List.sublist_cons_self _ _)) _
  refine ⟨hok, hflat, ⟨?_, ?_, ?_, ?_, ?_, ?_, ?_⟩, ?_⟩
  · simpa [L', y'] using hco.levels w h.levels.2.2 hnd hlr hdis
  · rw [hco.header]
    have hP := h.sizes.1
    rw [w.parents] at hP
    exact hP.lose rfl (by simp [y', w.items]; omega)
  · rw [hco.header]
    exact h.sizes.2
  -- the heads of a level are sorted if its children are
  · refine sorted_heads hok ?_
    rw [hflat]
    exact h.sorted
  · rw [map_snd_head]
    exact hsub.nodup hnd
  · intro z hz
    obtain ⟨s, hs, rfl⟩ := List.mem_map.mp hz
    rw [Seg.head_snd, (hok s hs).body]
    rfl
  · intro z hz
    obtain ⟨c, hc⟩ := mem_tail_of_heads hok hz
    rw [hflat] at hc
    exact h.sepsQ (z.1, c) hc
  -- what lies outside the levels and their children is as it was
  · refine ⟨by rw [hco.header], by rw [hco.header], fun p _ hp => ?_, fun p _ hpZ hp => ?_,
      fun p hp => Or.inl (hsub.subset hp), hsub.nodup hnd⟩
    · rw [pages_cons, pages_cons] at hp
      refine hco.body p ?_ ?_ ?_
      · rintro rfl
        exact hp (List.mem_append_left _ hf.pageL)
      · rintro rfl
        exact hp (List.mem_append_left _ hf.pageR)
      · rintro rfl
        exact hp (List.mem_append_right _ (List.mem_append_left _ hf.pageY))
    · refine hco.parentOf p ?_ fun hpc => hpZ ?_
      · rintro rfl
        rw [pages_cons] at hp
        exact hp (List.mem_append_left _ hf.pageR)
      · obtain ⟨c, hc, rfl⟩ := List.mem_map.mp hpc
        exact hf.children c hc

end Step

end Underfull

/-- **Rebalancing an internal level.**  Started on a node that may have lost an item, the code finds
    every node in its parent and every neighbour it asks for, and leaves well-formed levels over
    the same items.  Induction on the levels. -/
theorem coalesceOrRedistribute_spec {cmp : K → K → Ordering} [Std.TransCmp cmp] {zeroKey : K}
    {Q : K → Prop} :
    ∀ {Ls : List (Level K)} {t : BplusTree K V} {Z : List (K × PageNum)} {LA LB : Level K}
      {x : Seg K PageNum} {fuel : Nat},
      InternalCapacity cmp zeroKey Q t.fileHeader.internalMaxSize → Ls.length < fuel →
      Underfull cmp zeroKey Q t Z LA x LB Ls →
      ∃ t' Ls', coalesceOrRedistribute cmp fuel t x.page = .ok t' ∧
        Underfull.Repaired zeroKey t t' Z ((LA ++ x :: LB) :: Ls) Ls'
  -- no parent above: the root
  | [], t, Z, LA, LB, x, fuel, hcap, hfuel, h => by
    obtain ⟨fuel, rfl⟩ : ∃ n, fuel = n + 1 := ⟨fuel - 1, by simp at hfuel; omega⟩
    exact h.spec_root hcap.1 fuel
  | P :: Ps, t, Z, LA, LB, x, fuel, hcap, hfuel, h => by
    obtain ⟨fuel, rfl⟩ : ∃ n, fuel = n + 1 := ⟨fuel - 1, by simp at hfuel; omega⟩
    obtain ⟨hok, hZ, hup⟩ := id h.levels
    have hxok := hok x (by simp)
    have hweak := h.weak x (by simp)
    have hmin : t.fileHeader.minSize false
        = t.fileHeader.internalMaxSize - t.fileHeader.internalMaxSize / 2 := rfl
    have hmax : t.fileHeader.maxSize false = t.fileHeader.internalMaxSize := rfl
    simp only [List.isEmpty_cons, Bool.false_eq_true, if_false, if_true] at hweak
    have h4 := hcap.1
    -- an underfull node borrows from a neighbour or is joined with it; joining goes on with the parent
    rcases Nat.lt_or_ge x.items.length (t.fileHeader.minSize false) with hsmall | hbig
    · obtain ⟨init, e, hi⟩ : ∃ init e, x.items = init ++ [e] := by
        rcases List.eq_nil_or_concat x.items with hn | ⟨init, e, hi⟩
        · exact absurd hn hxok.items_ne_nil
        · exact ⟨init, e, by rw [hi, List.concat_eq_append]⟩
      -- this is where the capacity counts: the last key has to lead the lookup back to this node
      have hpos := h.lastKey_position hcap hi
      have hP : ∀ y ∈ P, 2 ≤ y.items.length := by
        intro y hy
        have := h.sizes.1 y hy
        split at this <;> simp at this <;> omega
      have hs := h.sorted
      rw [← hZ] at hs
      obtain ⟨SA, l, r, SB, PA, y, PB, ia, ib, w, hindex⟩ :=
        exists_window hup hP (sorted_heads hok hs) hpos.1 hpos.2
      have hx : x = l ∨ x = r := hindex.imp And.left And.left
      have hf := h.facts w
      have hpar : t.parentOf x.page = some y.page := by
        rcases hx with rfl | rfl
        · exact hf.nodeY.parent x.head (by simp [w.items])
        · exact hf.nodeY.parent x.head (by simp [w.items])
      have hwl := h.weak l (by rw [w.nodes]; simp)
      have hwr := h.weak r (by rw [w.nodes]; simp)
      have hlr := (h.siblings w).neLR
      rcases (h.siblings w).step fuel hi hindex w.items hpar hsmall with
        ⟨hbig, t', es, fs, k, hcode, hred, hlen⟩ | ⟨hfits, t₁, hcode, hco⟩
      · -- borrowed
        rw [show t.fileHeader.maxSize internalHandler.isLeaf = t.fileHeader.internalMaxSize from rfl]
          at hbig
        have hsize : ∀ n ∈ [es.length, fs.length], t.fileHeader.internalMaxSize / 2 ≤ n ∧
            n ≤ t.fileHeader.internalMaxSize := by
          simp only [List.mem_cons, List.not_mem_nil, or_false, forall_eq_or_imp, forall_eq]
          rcases hlen with ⟨rfl, h1, h2⟩ | ⟨rfl, h1, h2⟩ <;> omega
        have hes : es ≠ [] := by
          have := (hsize es.length (by simp)).1
          rintro rfl
          simp only [List.length_nil] at this
          omega
        obtain ⟨Ls', hrep⟩ := h.repaired_of_redistributed w hx hcap.1 hred hes hsize
        exact ⟨t', Ls', hcode, hrep⟩
      · -- joined: the parent may be underfull now
        rw [show t.fileHeader.maxSize internalHandler.isLeaf = t.fileHeader.internalMaxSize from rfl]
          at hfits
        obtain ⟨hok₁, hflat, hunder, hfr⟩ := h.underfull_of_coalesced w hco
        obtain ⟨t', Ls', hcode', hlev, hsz, hfr'⟩ := coalesceOrRedistribute_spec (by rwa [hco.header])
          (by simpa using hfuel) hunder
        have hnd' := hunder.nodup
        rw [map_snd_head, List.nodup_append] at hnd'
        rw [map_snd_head] at hfr'
        have hout : ∀ z ∈ Z, (t.body z.2).isSome ∧ z.2 ∉ pages ((LA ++ x :: LB) :: P :: Ps) :=
          fun z hz => ⟨h.isSome z hz, fun hp =>
            (List.nodup_append.mp h.nodup).2.2 _ (List.mem_map_of_mem hz) _ hp rfl⟩
        refine ⟨t', (SA ++ [⟨l.sep, l.page, l.items ++ r.items⟩] ++ SB) :: Ls',
          hcode.trans hcode', ?_, ⟨?_, hsz⟩, hfr.trans ?_⟩
        -- the levels that the call for the parent has made belong to the joined level
        · rw [← hflat]
          refine Levels.lift hok₁ hlev hfr' (fun z hz hp =>
            hnd'.2.2 _ (List.mem_map_of_mem hz) _ hp rfl) fun z hz => ?_
          rw [hflat] at hz
          have hnot : z.2 ∉ pages ((SA ++ [⟨l.sep, l.page, l.items ++ r.items⟩] ++ SB) ::
              (PA ++ ⟨y.sep, y.page, ia ++ [l.head] ++ ib⟩ :: PB) :: Ps) := fun hp => by
            rcases hfr.fresh z.2 hp with h' | h'
            · exact (hout z hz).2 h'
            · have := (hout z hz).1
              rw [h'] at this
              cases this
          rw [pages_cons, List.mem_append, not_or] at hnot
          refine ⟨?_, hnot⟩
          rw [hfr.body _ (hout z hz).1 (hout z hz).2]
          exact (hout z hz).1
        -- the joined node is not underfull, as the neighbour had at least half
        · rw [hfr'.internalMaxSize, hco.header]
          refine h.sizes_after w hx (fun z hz => ?_) hcap.1 _
          rw [List.mem_singleton.mp hz, List.length_append]
          refine ⟨?_, hfits⟩
          simp only [List.isEmpty_cons, Bool.false_eq_true, if_false, Option.some.injEq] at hwl hwr
          rcases hx with rfl | rfl
          · rw [if_neg hlr] at hwr
            omega
          · rw [if_neg hlr.symm] at hwl
            omega
        · exact LevelsFrame.cons hok₁ rfl rfl (fun _ _ _ => rfl) (fun _ _ _ _ => rfl)
            (fun p hp => Or.inl hp) hnd'.1 (fun p hp hp' => hnd'.2.2 p hp p hp' rfl) hfr'
    · exact ⟨t, _, coalesceOrRedistribute_enough (H := internalHandler) fuel
        (show t.body x.page = some (internalHandler.node bpInvalidPageNum x.items) from hxok.body)
        hbig, h.repaired_self (by simp; omega)⟩

end Miniob.Index
