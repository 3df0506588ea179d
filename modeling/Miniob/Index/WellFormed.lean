/-
  What a well-formed tree is, said about the pages alone, and that the invariant implies it.

  `WellFormed` follows `InternalIndexNodeHandler::validate` and `LeafIndexNodeHandler::validate`, but
  over whole subtrees: it mentions neither levels nor blocks, only pages, their bodies and their
  parent fields.  `Sub h lo hi p` is the step in between, a recursive description of the subtree of
  `p`: its height and the range its keys lie in.  Levels fold into one `Sub` of the root, and
  everything about nodes and their descendants is read off it.
-/
import Mathlib.Data.List.Nodup
import Miniob.Index.Leaves

namespace Miniob.Index

open Miniob.Common Miniob.Storage BplusTree

variable {K V : Type}

/-! ## Paths -/

/-- Page `q` is listed in the internal node of page `p`. -/
def IsChild (t : BplusTree K V) (p q : PageNum) : Prop :=
  ∃ array, t.body p = some (.internal array) ∧ q ∈ array.map Prod.snd

/-- Page `q` is `n` levels below page `p`. -/
inductive Below (t : BplusTree K V) : PageNum → Nat → PageNum → Prop where
  | here (p : PageNum) : Below t p 0 p
  | down {p c q : PageNum} {n : Nat} : IsChild t p c → Below t c n q → Below t p (n + 1) q

/-- Page `q` is the leaf that the first children lead to from `p`. -/
inductive Leftmost (t : BplusTree K V) : PageNum → PageNum → Prop where
  | leaf {p next : PageNum} {es : List (K × V)} : t.body p = some (.leaf next es) → Leftmost t p p
  | down {p q : PageNum} {c : K × PageNum} {rest : List (K × PageNum)} :
      t.body p = some (.internal (c :: rest)) → Leftmost t c.2 q → Leftmost t p q

/-- The `next_brother` fields lead from `p` through exactly these leaves to the end. -/
inductive BrotherChain (t : BplusTree K V) : PageNum → List (PageNum × List (K × V)) → Prop where
  | nil : BrotherChain t bpInvalidPageNum []
  | cons {p next : PageNum} {es : List (K × V)} {rest : List (PageNum × List (K × V))} :
      t.body p = some (.leaf next es) → BrotherChain t next rest → BrotherChain t p ((p, es) :: rest)

/-- The keys a search compares: all keys of a leaf, those from index 1 on of an internal node. -/
def NodeBody.liveKeys : NodeBody K V → List K
  | .leaf _ array => array.map Prod.fst
  | .internal array => array.tail.map Prod.fst

/-! ## Well-formed trees -/

/-- A well-formed non-empty tree. -/
structure WellFormed (cmp : K → K → Ordering) (t : BplusTree K V) : Prop where
  /-- Every page the tree refers to is allocated. -/
  isSome : ∀ n p, Below t t.fileHeader.rootPage n p → (t.body p).isSome
  /-- Keys are strictly increasing in every node. -/
  sorted : ∀ n p b, Below t t.fileHeader.rootPage n p → t.body p = some b →
    b.liveKeys.Pairwise fun x y => cmp x y = .lt
  /-- Every key below child `i` is at least separator `i` (`i ≥ 1`) and below separator `i + 1`. -/
  bounds : ∀ n p array i k c, Below t t.fileHeader.rootPage n p → t.body p = some (.internal array) →
    array[i]? = some (k, c) → ∀ m q b x, Below t c m q → t.body q = some b → x ∈ b.liveKeys →
    (1 ≤ i → cmp x k ≠ .lt) ∧ ∀ item, array[i + 1]? = some item → cmp x item.1 = .lt
  /-- The parent field of a node below the root names the internal node that lists it exactly once,
      and no other node lists it. -/
  parent : ∀ n p, Below t t.fileHeader.rootPage n p → p ≠ t.fileHeader.rootPage →
    ∃ q m array, t.parentOf p = some q ∧ Below t t.fileHeader.rootPage m q ∧
      t.body q = some (.internal array) ∧ (array.map Prod.snd).count p = 1 ∧
      ∀ q' m', Below t t.fileHeader.rootPage m' q' → IsChild t q' p → q' = q
  /-- All leaves have the same depth. -/
  depth : ∃ h, ∀ n p next es, Below t t.fileHeader.rootPage n p → t.body p = some (.leaf next es) →
    n = h
  /-- The chain from the leftmost leaf visits every leaf exactly once, in key order. -/
  chain : ∃ p leaves, Leftmost t t.fileHeader.rootPage p ∧ BrotherChain t p leaves ∧
    (leaves.map Prod.fst).Nodup ∧
    (∀ q, q ∈ leaves.map Prod.fst ↔
      ∃ n next es, Below t t.fileHeader.rootPage n q ∧ t.body q = some (.leaf next es)) ∧
    (leaves.flatMap Prod.snd).Pairwise fun a b => cmp a.1 b.1 = .lt
  /-- No node holds more than its maximum. -/
  size : ∀ n p b, Below t t.fileHeader.rootPage n p → t.body p = some b →
    b.size ≤ t.fileHeader.maxSize b.isLeaf

/-- An empty tree has no root; any other one is well formed below its root. -/
def WellFormedTree (cmp : K → K → Ordering) (t : BplusTree K V) : Prop :=
  t.isEmpty = true ∨ WellFormed cmp t

/-! ## Subtrees -/

section Subtree

variable {cmp : K → K → Ordering}

/-- `x` is at least `lo` and below `hi`, where these are given. -/
def InRange (cmp : K → K → Ordering) (lo hi : Option K) (x : K) : Prop :=
  (∀ l ∈ lo, cmp x l ≠ .lt) ∧ ∀ h ∈ hi, cmp x h = .lt

/-- The subtree of page `p` has height `h` and its keys lie between `lo` and `hi`. -/
inductive Sub (cmp : K → K → Ordering) (t : BplusTree K V) :
    Nat → Option K → Option K → PageNum → Prop where
  | leaf {lo hi : Option K} {p next : PageNum} {es : List (K × V)} :
      t.body p = some (.leaf next es) → (es.Pairwise fun a b => cmp a.1 b.1 = .lt) →
      (∀ e ∈ es, InRange cmp lo hi e.1) → es.length ≤ t.fileHeader.leafMaxSize → Sub cmp t 0 lo hi p
  | node {h : Nat} {lo hi : Option K} {p : PageNum} {array : List (K × PageNum)} :
      t.body p = some (.internal array) → TailSorted cmp array → (array.map Prod.snd).Nodup →
      (∀ c ∈ array.tail, InRange cmp lo hi c.1) → array.length ≤ t.fileHeader.internalMaxSize →
      (∀ c ∈ array, t.parentOf c.2 = some p) →
      (∀ A c B, array = A ++ c :: B →
        Sub cmp t h (if A = [] then lo else some c.1) ((B.head?.map Prod.fst).or hi) c.2) →
      Sub cmp t (h + 1) lo hi p

/-- The range of a child is inside the range of its node. -/
theorem InRange.of_child [Std.TransCmp cmp] {lo hi : Option K} {A B : List (K × PageNum)}
    {c : K × PageNum} {x : K} (hr : ∀ z ∈ (A ++ c :: B).tail, InRange cmp lo hi z.1)
    (hx : InRange cmp (if A = [] then lo else some c.1) ((B.head?.map Prod.fst).or hi) x) :
    InRange cmp lo hi x := by
  constructor
  · intro l hl
    cases A with
    | nil => exact hx.1 l hl
    | cons a A => exact ge_trans ((hr c (by simp)).1 l hl) (hx.1 c.1 rfl)
  · intro u hu
    cases B with
    | nil => exact hx.2 u hu
    | cons b B =>
      have hxb := hx.2 b.1 rfl
      exact Std.TransCmp.lt_trans hxb ((hr b (by cases A <;> simp)).2 u hu)

/-- Every descendant has its own subtree, with a range inside. -/
theorem Sub.descend [Std.TransCmp cmp] {t : BplusTree K V} {p q : PageNum} {n : Nat}
    (hb : Below t p n q) : ∀ {h : Nat} {lo hi : Option K}, Sub cmp t h lo hi p →
      ∃ h' lo' hi', Sub cmp t h' lo' hi' q ∧ h = h' + n ∧
        ∀ x, InRange cmp lo' hi' x → InRange cmp lo hi x := by
  induction hb with
  | here p => exact fun hs => ⟨_, _, _, hs, rfl, fun _ h => h⟩
  | @down p c q n hc _ ih =>
    intro h lo hi hs
    obtain ⟨array, hbody, hmem⟩ := hc
    cases hs with
    | leaf hb' => rw [hb'] at hbody; cases hbody
    | node hb' _ _ hr _ _ hsub =>
      rw [hb', Option.some.injEq, NodeBody.internal.injEq] at hbody
      subst hbody
      obtain ⟨item, hitem, rfl⟩ := List.mem_map.mp hmem
      obtain ⟨A, B, rfl⟩ := List.append_of_mem hitem
      obtain ⟨h', lo', hi', hs', hh, hrange⟩ := ih (hsub A item B rfl)
      exact ⟨h', lo', hi', hs', by omega, fun x hx => InRange.of_child hr (hrange x hx)⟩

theorem Sub.isSome {t : BplusTree K V} {h : Nat} {lo hi : Option K} {p : PageNum}
    (hs : Sub cmp t h lo hi p) : (t.body p).isSome := by
  cases hs with
  | leaf hb => rw [hb]; rfl
  | node hb => rw [hb]; rfl

/-- The live keys of a node ascend. -/
theorem Sub.sorted {t : BplusTree K V} {h : Nat} {lo hi : Option K} {p : PageNum}
    {b : NodeBody K V} (hs : Sub cmp t h lo hi p) (hb : t.body p = some b) :
    b.liveKeys.Pairwise fun x y => cmp x y = .lt := by
  cases hs with
  | leaf hb' hsorted =>
    rw [hb', Option.some.injEq] at hb
    subst hb
    exact List.pairwise_map.mpr hsorted
  | node hb' hsorted =>
    rw [hb', Option.some.injEq] at hb
    subst hb
    exact List.pairwise_map.mpr hsorted

/-- They lie between the bounds of the subtree. -/
theorem Sub.inRange {t : BplusTree K V} {h : Nat} {lo hi : Option K} {p : PageNum}
    {b : NodeBody K V} (hs : Sub cmp t h lo hi p) (hb : t.body p = some b) {x : K}
    (hx : x ∈ b.liveKeys) : InRange cmp lo hi x := by
  cases hs with
  | leaf hb' _ hr =>
    rw [hb', Option.some.injEq] at hb
    subst hb
    obtain ⟨e, he, rfl⟩ := List.mem_map.mp hx
    exact hr e he
  | node hb' _ _ hr =>
    rw [hb', Option.some.injEq] at hb
    subst hb
    obtain ⟨c, hc, rfl⟩ := List.mem_map.mp hx
    exact hr c hc

/-- And are no more than the node has room for. -/
theorem Sub.size {t : BplusTree K V} {h : Nat} {lo hi : Option K} {p : PageNum}
    {b : NodeBody K V} (hs : Sub cmp t h lo hi p) (hb : t.body p = some b) :
    b.size ≤ t.fileHeader.maxSize b.isLeaf := by
  cases hs with
  | leaf hb' _ _ hl =>
    rw [hb', Option.some.injEq] at hb
    subst hb
    exact hl
  | node hb' _ _ _ hl =>
    rw [hb', Option.some.injEq] at hb
    subst hb
    exact hl

/-- A page below another one either is that page or is listed in a node on the way. -/
theorem Below.last {t : BplusTree K V} {p q : PageNum} {n : Nat} (h : Below t p n q) :
    (n = 0 ∧ p = q) ∨ ∃ r m, n = m + 1 ∧ Below t p m r ∧ IsChild t r q := by
  induction h with
  | here p => exact Or.inl ⟨rfl, rfl⟩
  | @down p c q n hc hb ih =>
    rcases ih with ⟨rfl, rfl⟩ | ⟨r, m, rfl, hr, hrq⟩
    · exact Or.inr ⟨p, 0, rfl, .here p, hc⟩
    · exact Or.inr ⟨r, m + 1, rfl, .down hc hr, hrq⟩

theorem Below.snoc {t : BplusTree K V} {p q r : PageNum} {n : Nat} (h : Below t p n q)
    (hc : IsChild t q r) : Below t p (n + 1) r := by
  induction h with
  | here p => exact .down hc (.here r)
  | down hc' _ ih => exact .down hc' (ih hc)

end Subtree

/-! ## From levels to subtrees -/

section FromLevels

variable {cmp : K → K → Ordering} {zeroKey : K} {t : BplusTree K V}

/-- The levels fold into one subtree: if every page of `Z` has a subtree of height `h` with the
    range its place in `Z` gives it, the root has one of height `h` plus the number of levels. -/
theorem Levels.sub_root [Std.TransCmp cmp] :
    ∀ {Ls : List (Level K)} {Z : List (K × PageNum)} {h : Nat}, Levels zeroKey t Z Ls →
      Sizes t.fileHeader.internalMaxSize Ls → TailSorted cmp Z → (Z.map Prod.snd).Nodup →
      (pages Ls).Nodup →
      (∀ A z B, Z = A ++ z :: B →
        Sub cmp t h (if A = [] then none else some z.1) (B.head?.map Prod.fst) z.2) →
      Sub cmp t (h + Ls.length) none none t.fileHeader.rootPage
  | [], Z, h, ⟨hZ, _⟩, _, _, _, _, hsub => by simpa using hsub [] _ [] hZ
  | L :: Ls, Z, h, ⟨hok, hZ, hup⟩, hsz, hs, hnd, hndL, hsub => by
    rw [← hZ] at hs hnd
    rw [pages_cons, List.nodup_append] at hndL
    have hres := hup.sub_root (h := h + 1) hsz.2 (sorted_heads hok hs) (by
      rw [map_snd_head]
      exact hndL.1) hndL.2.1 fun A z B hcut => ?_
    · rwa [List.length_cons, Nat.add_comm Ls.length, ← Nat.add_assoc]
    -- the node `y` at this place of the level
    obtain ⟨LA, LB', rfl, rfl, hLB⟩ := List.map_eq_append_iff.mp hcut
    obtain ⟨y, LB, rfl, rfl, rfl⟩ := List.map_eq_cons_iff.mp hLB
    have hyok := hok y (by simp)
    obtain ⟨c₀, rest, hi⟩ := hyok.items_eq
    have hLA : LA.flatMap Seg.items = [] ↔ LA = [] := by
      constructor
      · intro hn
        cases LA with
        | nil => rfl
        | cons a LA =>
          obtain ⟨d, rest', ha⟩ := (hok a (by simp)).items_eq
          simp [ha] at hn
      · rintro rfl
        rfl
    have hLBhead : ((LB.flatMap Seg.items).head?.map Prod.fst : Option K)
        = (LB.map Seg.head).head?.map Prod.fst := by
      cases LB with
      | nil => rfl
      | cons b LB =>
        obtain ⟨d, rest', hb⟩ := (hok b (by simp)).items_eq
        simp [hb]
    rw [show (LA ++ y :: LB).flatMap Seg.items
      = LA.flatMap Seg.items ++ y.items ++ LB.flatMap Seg.items by simp] at hs hnd
    have hcut' : LA.flatMap Seg.items ++ y.items ++ LB.flatMap Seg.items
        = LA.flatMap Seg.items ++ (y.sep, c₀) :: (rest ++ LB.flatMap Seg.items) := by simp [hi]
    refine Sub.node hyok.body hs.part ?_ ?_ (hsz.1 y (by simp)).2 hyok.parent fun ia c ib hy => ?_
    · rw [List.map_append, List.map_append, List.nodup_append, List.nodup_append] at hnd
      exact hnd.1.2.1
    · -- the node's own keys
      intro c hc
      rw [hi, List.tail_cons] at hc
      obtain ⟨B₁, B₂, hB⟩ := List.append_of_mem hc
      rw [hcut'] at hs
      constructor
      · intro l hl
        simp only [List.map_eq_nil_iff] at hl
        split at hl
        · cases hl
        · rename_i hne
          obtain rfl := Option.mem_some_iff.mp hl
          refine ge_of_lt (hs.lt_right (fun h => hne (hLA.mp h)) c ?_)
          exact List.mem_append_left _ hc
      · intro u hu
        rw [← hLBhead] at hu
        obtain ⟨b, hb, rfl⟩ := Option.map_eq_some_iff.mp hu
        rw [hB, show LA.flatMap Seg.items ++ (y.sep, c₀) :: (B₁ ++ c :: B₂ ++ LB.flatMap Seg.items)
          = (LA.flatMap Seg.items ++ (y.sep, c₀) :: B₁) ++ c :: (B₂ ++ LB.flatMap Seg.items) by
            simp] at hs
        exact hs.lt_right (by simp) b (List.mem_append_right _ (List.mem_of_mem_head? hb))
    · -- a child's range is the one its place in `Z` gives it
      have hchild := hsub (LA.flatMap Seg.items ++ ia) c (ib ++ LB.flatMap Seg.items) (by
        rw [← hZ]
        simp [hy])
      rw [List.head?_append, Option.map_or, hLBhead] at hchild
      convert hchild using 1
      cases ia with
      | nil =>
        rw [hi, List.nil_append, List.cons_eq_cons] at hy
        simp only [if_true, List.append_nil, hLA, List.map_eq_nil_iff, ← hy.1, Seg.head_fst]
      | cons i ia => simp

theorem Levels.leftmost {q : PageNum} :
    ∀ {Ls : List (Level K)} {B : List (K × PageNum)} {z : K × PageNum},
      Levels zeroKey t (z :: B) Ls → Leftmost t z.2 q → Leftmost t t.fileHeader.rootPage q
  | [], B, z, ⟨hZ, _⟩, hq => by
    rwa [(List.cons_eq_cons.mp hZ).1] at hq
  | L :: Ls, B, z, ⟨hok, hZ, hup⟩, hq => by
    cases L with
    | nil => exact absurd rfl hup.ne_nil
    | cons y L =>
      have hyok := hok y (by simp)
      obtain ⟨c, rest, hi⟩ := hyok.items_eq
      refine hup.leftmost (.down (hi ▸ hyok.body) ?_)
      rw [List.flatMap_cons, hi, List.cons_append] at hZ
      rwa [(List.cons_eq_cons.mp hZ).1]

/-- The items of a level are one step further from the root than its nodes. -/
theorem Levels.below :
    ∀ {Ls : List (Level K)} {Z : List (K × PageNum)}, Levels zeroKey t Z Ls →
      ∀ z ∈ Z, Below t t.fileHeader.rootPage Ls.length z.2
  | [], Z, ⟨hZ, _⟩, z, hz => by
    rw [hZ, List.mem_singleton] at hz
    rw [hz]
    exact .here _
  | L :: Ls, Z, ⟨hok, hZ, hup⟩, z, hz => by
    rw [← hZ] at hz
    obtain ⟨y, hy, hzy⟩ := List.mem_flatMap.mp hz
    exact (hup.below y.head (List.mem_map_of_mem hy)).snoc
      ⟨y.items, (hok y hy).body, List.mem_map_of_mem hzy⟩

/-- Children of nodes of the levels are nodes of the levels or pages below. -/
theorem Levels.child_mem {p c : PageNum} (hc : IsChild t p c) :
    ∀ {Ls : List (Level K)} {Z : List (K × PageNum)}, Levels zeroKey t Z Ls → p ∈ pages Ls →
      c ∈ Z.map Prod.snd ++ pages Ls
  | [], _, _, hp => nomatch hp
  | L :: Ls, Z, ⟨hok, hZ, hup⟩, hp => by
    rcases List.mem_append.mp hp with hp | hp
    · obtain ⟨y, hy, rfl⟩ := List.mem_map.mp hp
      obtain ⟨array, hb, hmem⟩ := hc
      rw [(hok y hy).body, Option.some.injEq, NodeBody.internal.injEq] at hb
      subst hb
      refine List.mem_append_left _ ?_
      rw [← hZ]
      obtain ⟨item, hitem, rfl⟩ := List.mem_map.mp hmem
      exact List.mem_map_of_mem (List.mem_flatMap.mpr ⟨y, hy, hitem⟩)
    · have := hup.child_mem hc hp
      rw [map_snd_head] at this
      exact List.mem_append_right _ this

theorem Levels.internal_of_mem {p : PageNum} :
    ∀ {Ls : List (Level K)} {Z : List (K × PageNum)}, Levels zeroKey t Z Ls → p ∈ pages Ls →
      ∃ array, t.body p = some (.internal array)
  | [], _, _, hp => nomatch hp
  | L :: Ls, Z, ⟨hok, _, hup⟩, hp => by
    rcases List.mem_append.mp hp with hp | hp
    · obtain ⟨y, hy, rfl⟩ := List.mem_map.mp hp
      exact ⟨_, (hok y hy).body⟩
    · exact hup.internal_of_mem hp

theorem LeafChain.brotherChain : ∀ {segs : List (Seg K V)}, LeafChain t bpInvalidPageNum segs →
    BrotherChain t (nextPage bpInvalidPageNum segs) (segs.map fun s => (s.page, s.items))
  | [], _ => .nil
  | _ :: _, ⟨hb, h⟩ => .cons hb h.brotherChain

end FromLevels

/-! ## The invariant implies well-formedness -/

section Main

variable {cmp : K → K → Ordering} [Std.TransCmp cmp] {zeroKey : K} {Q : K → Prop}
  {t : BplusTree K V} {segs : List (Seg K V)} {Ls : List (Level K)}

/-- The subtree of the root. -/
theorem TreeShape.sub (h : TreeShape cmp zeroKey Q t segs Ls) :
    Sub cmp t Ls.length none none t.fileHeader.rootPage := by
  have hnd := List.nodup_append.mp h.nodup
  have hroot := h.levels.sub_root (h := 0) h.sizes (h.fenced.sep_tailSorted Seg.page)
    (by rw [map_snd_head]; exact hnd.1) hnd.2.1 fun A z B hcut => ?_
  · rwa [Nat.zero_add] at hroot
  obtain ⟨SA, SB', rfl, rfl, hSB⟩ := List.map_eq_append_iff.mp hcut
  obtain ⟨s, SB, rfl, rfl, rfl⟩ := List.map_eq_cons_iff.mp hSB
  refine Sub.leaf h.leaves.body (List.pairwise_map.mp (h.fenced.sorted s (by simp)))
    (fun e he => ?_) (h.leafMax s (by simp))
  have hin : InBlock cmp Seg.sep SA s SB e.1 := h.fenced.inBlock (List.mem_map_of_mem he)
  constructor
  · intro l hl
    simp only [List.map_eq_nil_iff] at hl
    split at hl
    · cases hl
    · rename_i hne
      obtain rfl := Option.mem_some_iff.mp hl
      exact hin.1 hne
  · intro u hu
    rw [List.head?_map] at hu
    obtain ⟨b, hb, rfl⟩ := Option.map_eq_some_iff.mp hu
    obtain ⟨c, hc, rfl⟩ := Option.map_eq_some_iff.mp hb
    exact hin.2 c hc

omit [Std.TransCmp cmp] in
/-- Every page of the tree is a leaf of the chain or a node of the levels. -/
theorem TreeShape.mem_of_below (h : TreeShape cmp zeroKey Q t segs Ls) {p q : PageNum} {n : Nat}
    (hb : Below t p n q) (hp : p ∈ segs.map Seg.page ++ pages Ls) :
    q ∈ segs.map Seg.page ++ pages Ls := by
  induction hb with
  | here p => exact hp
  | @down p c q n hc _ ih =>
    refine ih ?_
    rcases List.mem_append.mp hp with hp | hp
    · obtain ⟨s, hs, rfl⟩ := List.mem_map.mp hp
      obtain ⟨A, B, rfl⟩ := List.append_of_mem hs
      obtain ⟨array, hb, -⟩ := hc
      rw [h.leaves.body] at hb
      cases hb
    · rw [← map_snd_head]
      exact h.levels.child_mem hc hp

omit [Std.TransCmp cmp] in
/-- The chain goes through the leaves of the tree. -/
theorem TreeShape.leaf_iff (h : TreeShape cmp zeroKey Q t segs Ls) (q : PageNum) :
    q ∈ segs.map Seg.page ↔
      ∃ n next es, Below t t.fileHeader.rootPage n q ∧ t.body q = some (.leaf next es) := by
  constructor
  · intro hq
    obtain ⟨s, hs, rfl⟩ := List.mem_map.mp hq
    obtain ⟨A, B, rfl⟩ := List.append_of_mem hs
    exact ⟨Ls.length, _, _, h.levels.below s.head (List.mem_map_of_mem hs), h.leaves.body⟩
  · rintro ⟨n, next, es, hb, hleaf⟩
    have hroot := h.levels.root_mem
    rw [map_snd_head] at hroot
    rcases List.mem_append.mp (h.mem_of_below hb hroot) with hq | hq
    · exact hq
    · obtain ⟨array, ha⟩ := h.levels.internal_of_mem hq
      rw [hleaf] at ha
      cases ha

/-- **The invariant implies well-formedness.** -/
theorem TreeShape.wellFormed (h : TreeShape cmp zeroKey Q t segs Ls) : WellFormed cmp t := by
  have hsub := h.sub
  constructor
  case isSome =>
    intro n p hb
    obtain ⟨_, _, _, hs, -⟩ := hsub.descend hb
    exact hs.isSome
  case sorted =>
    intro n p b hb hbody
    obtain ⟨_, _, _, hs, -⟩ := hsub.descend hb
    exact hs.sorted hbody
  case bounds =>
    intro n p array i k c hb hbody hi m q b x hbq hbodyq hx
    obtain ⟨_, lo, hi', hs, -⟩ := hsub.descend hb
    cases hs with
    | leaf hb' => rw [hb'] at hbody; cases hbody
    | node hb' _ _ _ _ _ hchild =>
      rw [hb', Option.some.injEq, NodeBody.internal.injEq] at hbody
      rw [hbody] at hchild
      obtain ⟨hlen, hget⟩ := List.getElem?_eq_some_iff.mp hi
      -- the keys of a child lie between the key in front of it and the next one
      have hcut : array = array.take i ++ (k, c) :: array.drop (i + 1) := by
        rw [← hget, ← List.drop_eq_getElem_cons, List.take_append_drop]
      obtain ⟨_, _, _, hsq, -, hrange⟩ := (hchild _ _ _ hcut).descend hbq
      have hxr := hrange x (hsq.inRange hbodyq hx)
      refine ⟨fun h1 => hxr.1 k ?_, fun item hitem => hxr.2 item.1 ?_⟩
      · rw [if_neg]
        · rfl
        · intro hn
          have hlen' := congrArg List.length hn
          rw [List.length_take, List.length_nil] at hlen'
          omega
      · rw [List.head?_drop, hitem]
        rfl
  case parent =>
    intro n p hb hne
    obtain ⟨rfl, rfl⟩ | ⟨q, m, rfl, hbq, hc⟩ := hb.last
    · exact absurd rfl hne
    -- whichever node has the page as a child is its parent, so there is but one
    have hnode : ∀ {q' m'}, Below t t.fileHeader.rootPage m' q' → IsChild t q' p →
        ∃ array, t.body q' = some (.internal array) ∧ t.parentOf p = some q' ∧
          (array.map Prod.snd).count p = 1 := by
      intro q' m' hbq' hc'
      obtain ⟨_, _, _, hs, -⟩ := hsub.descend hbq'
      obtain ⟨array, hbody, hmem⟩ := hc'
      cases hs with
      | leaf hb' => rw [hb'] at hbody; cases hbody
      | node hb' _ hnd _ _ hparent =>
        rw [hb', Option.some.injEq, NodeBody.internal.injEq] at hbody
        subst hbody
        obtain ⟨item, hitem, rfl⟩ := List.mem_map.mp hmem
        exact ⟨_, hb', hparent item hitem, List.count_eq_one_of_mem hnd hmem⟩
    obtain ⟨array, hbody, hpar, hcount⟩ := hnode hbq hc
    refine ⟨q, m, array, hpar, hbq, hbody, hcount, fun q' m' hbq' hc' => ?_⟩
    obtain ⟨_, _, hpar', _⟩ := hnode hbq' hc'
    rw [hpar] at hpar'
    exact (Option.some.inj hpar').symm
  case depth =>
    refine ⟨Ls.length, fun n p next es hb hbody => ?_⟩
    obtain ⟨h', _, _, hs, hh, -⟩ := hsub.descend hb
    cases hs with
    | leaf => omega
    | node hb' => rw [hb'] at hbody; cases hbody
  case chain =>
    obtain ⟨s, rest, rfl⟩ := List.exists_cons_of_ne_nil h.segs_ne_nil
    have hmap : ((s :: rest).map fun x => (x.page, x.items)).map Prod.fst
        = (s :: rest).map Seg.page := by
      rw [List.map_map]
      rfl
    refine ⟨s.page, (s :: rest).map fun x => (x.page, x.items), ?_, ?_, ?_,
      fun q => ?_, ?_⟩
    · exact h.levels.leftmost (.leaf h.leaves.1)
    · exact h.leaves.brotherChain
    · rw [hmap]
      exact (List.nodup_append.mp h.nodup).1
    · rw [hmap]
      exact h.leaf_iff q
    · rw [List.flatMap_map]
      exact h.sorted_entries
  case size =>
    intro n p b hb hbody
    obtain ⟨_, _, _, hs, -⟩ := hsub.descend hb
    exact hs.size hbody

end Main

end Miniob.Index
