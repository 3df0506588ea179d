/-
  One step of `coalesce_or_redistribute`.

  The source's functions are templates over the node handler; `NodeHandler` is that parameter: how
  a node of the kind stores its items, which pages the items point to, and what the handler's moves
  do.  Leaves and internal nodes are its two instances.

  A step looks at a window of two neighbours `l`, `r` under one parent `y`.  Either the node borrows
  one item from its neighbour, and then only the right one's separator changes, or both are joined
  in the left one and the right one's item leaves the parent.
-/
import Miniob.Index.Levels

namespace Miniob.Index

open Miniob.Common Miniob.Storage BplusTree

variable {K V β : Type}

/-! ## The handler parameter -/

/-- A kind of node, as the templates of the tree use it. -/
structure NodeHandler (K V β : Type) where
  isLeaf : Bool
  /-- The body with the given right brother (leaves only) and items. -/
  node : PageNum → List (K × β) → NodeBody K V
  /-- The pages whose parent field names the node that holds these items. -/
  children : List (K × β) → List PageNum
  children_append : ∀ a b, children (a ++ b) = children a ++ children b
  size_node : ∀ next items, (node next items).size = items.length
  isLeaf_node : ∀ next items, (node next items).isLeaf = isLeaf
  firstKeyOf_eq : ∀ {t : BplusTree K V} {p next e items}, t.body p = some (node next (e :: items)) →
    t.firstKeyOf p = .ok e.1
  lastKeyOf_eq : ∀ {t : BplusTree K V} {p next e items}, t.body p = some (node next (items ++ [e])) →
    t.lastKeyOf p = .ok e.1
  /-- `neighbor_node.move_first_to_end(node)`. -/
  moveOne_toEnd : ∀ {t : BplusTree K V} {n f nn nf e es fs}, t.body n = some (node nn (e :: es)) →
    t.body f = some (node nf fs) → (∀ c ∈ children [e], (t.body c).isSome) →
    t.moveOne n f true = .ok (((t.setBody f (node nf (fs ++ [e]))).setParents f
      (children [e])).setBody n (node nn es))
  /-- `neighbor_node.move_last_to_front(node)`. -/
  moveOne_toFront : ∀ {t : BplusTree K V} {n f nn nf e es fs},
    t.body n = some (node nn (es ++ [e])) → t.body f = some (node nf fs) →
    (∀ c ∈ children [e], (t.body c).isSome) →
    t.moveOne n f false = .ok (((t.setBody f (node nf (e :: fs))).setParents f
      (children [e])).setBody n (node nn es))
  /-- `right_node.move_to(left_node)`. -/
  moveTo_eq : ∀ {t : BplusTree K V} {r l nr nl es fs}, t.body r = some (node nr es) →
    t.body l = some (node nl fs) → (∀ c ∈ children es, (t.body c).isSome) →
    t.moveTo r l = .ok (((t.setBody l (node nr (fs ++ es))).setParents l (children es)).setBody r
      (node nr []))

/-- `LeafIndexNodeHandler`. -/
def leafHandler : NodeHandler K V V where
  isLeaf := true
  node := .leaf
  children _ := []
  children_append _ _ := rfl
  size_node _ _ := rfl
  isLeaf_node _ _ := rfl
  firstKeyOf_eq {t p next e items} hb := by
    obtain ⟨q, hq⟩ := exists_parentOf hb
    rw [firstKeyOf, getPage_eq hb hq]
    rfl
  lastKeyOf_eq {t p next e items} hb := by
    obtain ⟨q, hq⟩ := exists_parentOf hb
    rw [lastKeyOf, getPage_eq hb hq]
    exact keyAt_append_last
  moveOne_toEnd {t n f nn nf e es fs} hn hf _ := by
    obtain ⟨q, hq⟩ := exists_parentOf hn
    obtain ⟨q', hq'⟩ := exists_parentOf hf
    rw [moveOne, getPage_eq hn hq, getPage_eq hf hq']
    simp only [bind, Except.bind, if_true, itemAt_zero, recoverRemoveItem_zero]
    rfl
  moveOne_toFront {t n f nn nf e es fs} hn hf _ := by
    obtain ⟨q, hq⟩ := exists_parentOf hn
    obtain ⟨q', hq'⟩ := exists_parentOf hf
    rw [moveOne, getPage_eq hn hq, getPage_eq hf hq']
    simp only [bind, Except.bind, Bool.false_eq_true, if_false, itemAt_append_last,
      recoverRemoveItem_last]
    rfl
  moveTo_eq {t r l nr nl es fs} hr hl _ := by
    obtain ⟨q, hq⟩ := exists_parentOf hr
    obtain ⟨q', hq'⟩ := exists_parentOf hl
    rw [moveTo, getPage_eq hr hq, getPage_eq hl hq']
    rfl

/-- `InternalIndexNodeHandler`. -/
def internalHandler : NodeHandler K V PageNum where
  isLeaf := false
  node _ := .internal
  children items := items.map Prod.snd
  children_append _ _ := List.map_append
  size_node _ _ := rfl
  isLeaf_node _ _ := rfl
  firstKeyOf_eq {t p next e items} hb := by
    obtain ⟨q, hq⟩ := exists_parentOf hb
    rw [firstKeyOf, getPage_eq hb hq]
    rfl
  lastKeyOf_eq {t p next e items} hb := by
    obtain ⟨q, hq⟩ := exists_parentOf hb
    rw [lastKeyOf, getPage_eq hb hq]
    exact keyAt_append_last
  moveOne_toEnd {t n f nn nf e es fs} hn hf hc := by
    obtain ⟨q, hq⟩ := exists_parentOf hn
    obtain ⟨q', hq'⟩ := exists_parentOf hf
    rw [moveOne, getPage_eq hn hq, getPage_eq hf hq']
    simp only [bind, Except.bind, if_true, itemAt_zero, recoverRemoveItem_zero,
      insertItems_eq (recoverInsertItems_end [e]) hc]
    rfl
  moveOne_toFront {t n f nn nf e es fs} hn hf hc := by
    obtain ⟨q, hq⟩ := exists_parentOf hn
    obtain ⟨q', hq'⟩ := exists_parentOf hf
    rw [moveOne, getPage_eq hn hq, getPage_eq hf hq']
    simp only [bind, Except.bind, Bool.false_eq_true, if_false, itemAt_append_last,
      recoverRemoveItem_last, insertItems_eq (recoverInsertItems_zero [e]) hc]
    rfl
  moveTo_eq {t r l nr nl es fs} hr hl hc := by
    obtain ⟨q, hq⟩ := exists_parentOf hr
    obtain ⟨q', hq'⟩ := exists_parentOf hl
    rw [moveTo, getPage_eq hr hq, getPage_eq hl hq']
    simp only [bind, Except.bind, insertItems_eq (recoverInsertItems_end es) hc]
    rfl

/-! ## The window -/

/-- Two neighbours `l`, `r` of a level under one parent `y` in the level above. -/
structure Window (S : List (Seg K β)) (P : Level K) (SA : List (Seg K β)) (l r : Seg K β)
    (SB : List (Seg K β)) (PA : Level K) (y : Seg K PageNum) (PB : Level K)
    (ia ib : List (K × PageNum)) : Prop where
  /-- `l` and `r` lie side by side. -/
  nodes : S = SA ++ l :: r :: SB
  parents : P = PA ++ y :: PB
  /-- The parent lists one behind the other. -/
  items : y.items = ia ++ [l.head, r.head] ++ ib
  /-- What is listed before `l` is at the left of it. -/
  left : SA.map Seg.head = PA.flatMap Seg.items ++ ia
  /-- What is listed behind `r` is at the right of it. -/
  right : SB.map Seg.head = ib ++ PB.flatMap Seg.items

/-- A node that is not the root has a neighbour under its parent, and the parent's lookup of a key
    of the node returns the node's own index: 0 when the neighbour is at the right, otherwise the
    index after the neighbour's. -/
theorem exists_window {cmp : K → K → Ordering} [Std.TransCmp cmp] {zeroKey : K} {t : BplusTree K V}
    {SA SB : List (Seg K β)} {s : Seg K β} {P : Level K} {Ps : List (Level K)} {x : K}
    (h : Levels zeroKey t ((SA ++ s :: SB).map Seg.head) (P :: Ps))
    (hP : ∀ y ∈ P, 2 ≤ y.items.length) (hs : TailSorted cmp ((SA ++ s :: SB).map Seg.head))
    (hA : SA ≠ [] → cmp x s.sep ≠ .lt) (hB : ∀ b ∈ SB.head?, cmp x b.sep = .lt) :
    ∃ SA' l r SB' PA y PB ia ib, Window (SA ++ s :: SB) P SA' l r SB' PA y PB ia ib ∧
      ((s = l ∧ ia = [] ∧ internalLookup cmp y.items x = 0) ∨
        (s = r ∧ internalLookup cmp y.items x = ia.length + 1)) := by
  rw [List.map_append, List.map_cons] at h hs
  obtain ⟨PA, y, PB, ia, ib, rfl, hy, hleft, hright, hyok, -⟩ := h.parent_of
  have hlen := hP y (by simp)
  -- the children of the parent are a part of a sorted list
  have hsy : TailSorted cmp y.items := by
    rw [hleft, hright, show PA.flatMap Seg.items ++ ia ++ s.head :: (ib ++ PB.flatMap Seg.items)
      = PA.flatMap Seg.items ++ y.items ++ PB.flatMap Seg.items by simp [hy]] at hs
    exact hs.part
  -- the lookup of the parent therefore finds the node
  have hlook : internalLookup cmp y.items x = ia.length := by
    rw [hy] at hsy ⊢
    refine internalLookup_eq hsy (fun hne => hA ?_) fun b hb => ?_
    · rintro rfl
      simp at hleft
      exact hne hleft.2
    · have hb' : b ∈ (SB.map Seg.head).head? := by
        rw [hright, List.head?_append, Option.mem_def.mp hb]
        rfl
      rw [List.head?_map] at hb'
      obtain ⟨c, hc, rfl⟩ := Option.map_eq_some_iff.mp hb'
      exact hB c hc
  rcases List.eq_nil_or_concat ia with rfl | ⟨ia, h₀, rfl⟩
  · -- first child: the neighbour is at the right
    cases ib with
    | nil => simp [hy] at hlen
    | cons h₁ ib =>
      cases SB with
      | nil => simp at hright
      | cons r SB =>
        rw [List.map_cons, List.cons_append, List.cons_eq_cons] at hright
        refine ⟨SA, s, r, SB, PA, y, PB, [], ib, ⟨rfl, rfl, ?_, hleft, hright.2⟩,
          Or.inl ⟨rfl, rfl, hlook⟩⟩
        rw [hy, hright.1]
        rfl
  · -- the neighbour is at the left
    rcases List.eq_nil_or_concat SA with rfl | ⟨SA, l, rfl⟩
    · simp at hleft
    · rw [List.concat_eq_append, List.concat_eq_append, List.map_append, ← List.append_assoc] at hleft
      obtain ⟨hl, hl'⟩ := List.append_inj' hleft rfl
      rw [List.concat_eq_append] at hy hlook ⊢
      refine ⟨SA, l, s, SB, PA, y, PB, ia, ib, ⟨by simp, rfl, ?_, hl, hright⟩,
        Or.inr ⟨rfl, by simpa using hlook⟩⟩
      rw [hy, ← List.singleton_inj.mp hl']
      simp

/-! ## One step -/

/-- The window as it lies in the pages. -/
structure Siblings (H : NodeHandler K V β) (t : BplusTree K V) (l r : Seg K β) (y : Seg K PageNum)
    (ia ib : List (K × PageNum)) (nl nr : PageNum) : Prop where
  /-- The left page has the items of `l`. -/
  bodyL : t.body l.page = some (H.node nl l.items)
  bodyR : t.body r.page = some (H.node nr r.items)
  /-- The parent lists both. -/
  bodyP : t.body y.page = some (.internal (ia ++ [l.head, r.head] ++ ib))
  /-- The children know their parents. -/
  childL : ∀ c ∈ H.children l.items, t.parentOf c = some l.page
  childR : ∀ c ∈ H.children r.items, t.parentOf c = some r.page
  neLR : l.page ≠ r.page
  neLY : l.page ≠ y.page
  neRY : r.page ≠ y.page
  nodupL : (H.children l.items).Nodup
  nodupR : (H.children r.items).Nodup
  /-- The right page is not one of the children. -/
  notChild : r.page ∉ H.children (l.items ++ r.items)

/-- One item has moved between the neighbours. -/
structure Redistributed (H : NodeHandler K V β) (t t' : BplusTree K V) (l r : Seg K β)
    (y : Seg K PageNum) (ia ib : List (K × PageNum)) (nl nr : PageNum) (es fs : List (K × β))
    (k : K) : Prop where
  /-- No item is lost, and the order stays. -/
  items : es ++ fs = l.items ++ r.items
  /-- The new key of the right page is its first one. -/
  sep : fs.head?.map Prod.fst = some k
  header : t'.fileHeader = t.fileHeader
  bodyL : t'.body l.page = some (H.node nl es)
  bodyR : t'.body r.page = some (H.node nr fs)
  bodyP : t'.body y.page = some (.internal (ia ++ [l.head, (k, r.page)] ++ ib))
  /-- No other page is written. -/
  body : ∀ p, p ≠ l.page → p ≠ r.page → p ≠ y.page → t'.body p = t.body p
  /-- The children that have moved know their new parent. -/
  childL : ∀ c ∈ H.children es, t'.parentOf c = some l.page
  childR : ∀ c ∈ H.children fs, t'.parentOf c = some r.page
  /-- No other parent is written. -/
  parentOf : ∀ p, p ∉ H.children (l.items ++ r.items) → t'.parentOf p = t.parentOf p

/-- The right neighbour has been joined to the left one. -/
structure Coalesced (H : NodeHandler K V β) (t t' : BplusTree K V) (l r : Seg K β)
    (y : Seg K PageNum) (ia ib : List (K × PageNum)) (nr : PageNum) : Prop where
  header : t'.fileHeader = t.fileHeader
  /-- The left page has all items, and the chain goes on behind the right one. -/
  bodyL : t'.body l.page = some (H.node nr (l.items ++ r.items))
  /-- The right page is out of the parent. -/
  bodyP : t'.body y.page = some (.internal (ia ++ [l.head] ++ ib))
  body : ∀ p, p ≠ l.page → p ≠ r.page → p ≠ y.page → t'.body p = t.body p
  childL : ∀ c ∈ H.children (l.items ++ r.items), t'.parentOf c = some l.page
  parentOf : ∀ p, p ≠ r.page → p ∉ H.children (l.items ++ r.items) →
    t'.parentOf p = t.parentOf p

section Step

variable {H : NodeHandler K V β} {t : BplusTree K V} {l r : Seg K β} {y : Seg K PageNum}
  {ia ib : List (K × PageNum)} {nl nr : PageNum}

theorem isSome_of_parentOf {p q : PageNum} (h : t.parentOf p = some q) : (t.body p).isSome := by
  rw [← parentOf_isSome, h]
  rfl

/-- The tree after items and children have moved from node `n` to node `f`. -/
def moved (H : NodeHandler K V β) (t : BplusTree K V) (n f : PageNum) (nn nf : PageNum)
    (ns fs : List (K × β)) (cs : List PageNum) : BplusTree K V :=
  ((t.setBody f (H.node nf fs)).setParents f cs).setBody n (H.node nn ns)

theorem body_moved {n f : PageNum} (nn nf : PageNum) (ns fs : List (K × β)) (cs : List PageNum)
    (hn : (t.body n).isSome) (hf : (t.body f).isSome) (hne : n ≠ f) (x : PageNum) :
    (moved H t n f nn nf ns fs cs).body x = if x = n then some (H.node nn ns)
      else if x = f then some (H.node nf fs) else t.body x := by
  obtain ⟨bn, hbn⟩ := Option.isSome_iff_exists.mp hn
  obtain ⟨bf, hbf⟩ := Option.isSome_iff_exists.mp hf
  simp only [moved, body_setBody, body_setParents]
  by_cases hx : x = n
  · simp [hx, hne, hbn]
  · by_cases hxf : x = f <;> simp [hx, hxf, hbf, hne.symm]

theorem parentOf_moved {cs : List PageNum} (n f nn nf : PageNum) (ns fs : List (K × β))
    (hcs : ∀ c ∈ cs, (t.body c).isSome) (x : PageNum) :
    (moved H t n f nn nf ns fs cs).parentOf x = if x ∈ cs then some f else t.parentOf x := by
  simp only [moved, parentOf_setBody, parentOf_setParents]
  split
  · rename_i hx
    obtain ⟨b, hb⟩ := Option.isSome_iff_exists.mp (hcs x hx)
    obtain ⟨q, hq⟩ := exists_parentOf hb
    rw [hq]
    rfl
  · rfl

/-- The right neighbour's first item moves to the left node. -/
theorem Siblings.redistribute_right (h : Siblings H t l r y [] ib nl nr) {e e' : K × β}
    {rest : List (K × β)} (hr : r.items = e :: e' :: rest) :
    ∃ t', t.redistribute r.page l.page y.page 0 = .ok t' ∧
      Redistributed H t t' l r y [] ib nl nr (l.items ++ [e]) (e' :: rest) e'.1 := by
  -- the child that moves, if the nodes are internal, is the first one of the right node
  have hchildren : H.children r.items = H.children [e] ++ H.children (e' :: rest) := by
    rw [hr, ← H.children_append]
    rfl
  have hsome : ∀ c ∈ H.children [e], (t.body c).isSome := fun c hc =>
    isSome_of_parentOf (h.childR c (by rw [hchildren]; exact List.mem_append_left _ hc))
  have hbl : (t.body l.page).isSome := by rw [h.bodyL]; rfl
  have hbr : (t.body r.page).isSome := by rw [h.bodyR]; rfl
  -- the tree after the item has moved; the separator in the parent comes last
  let t₁ := moved H t r.page l.page nr nl (e' :: rest) (l.items ++ [e]) (H.children [e])
  have hb : ∀ x, t₁.body x = _ := body_moved nr nl (e' :: rest) (l.items ++ [e]) (H.children [e])
    hbr hbl h.neLR.symm
  have hp : ∀ x, t₁.parentOf x = _ := parentOf_moved r.page l.page nr nl (e' :: rest)
    (l.items ++ [e]) hsome
  have hbP : t₁.body y.page = some (.internal ([] ++ [l.head, r.head] ++ ib)) := by
    rw [hb, if_neg h.neRY.symm, if_neg h.neLY.symm, h.bodyP]
  refine ⟨t₁.setBody y.page (.internal ([] ++ [l.head, (e'.1, r.page)] ++ ib)), ?_, by simp [hr], rfl,
    by simp [t₁, moved], ?_, ?_, ?_, fun p hpl hpr hpy => ?_, fun c hc => ?_, fun c hc => ?_,
    fun p hps => ?_⟩
  · have hmove : t.moveOne r.page l.page true = .ok t₁ :=
      H.moveOne_toEnd (hr ▸ h.bodyR) h.bodyL hsome
    have hkey : t₁.firstKeyOf r.page = .ok e'.1 := H.firstKeyOf_eq (by rw [hb, if_pos rfl])
    rw [redistribute]
    simp only [bind, Except.bind, beq_self_eq_true, hmove, getInternal_eq hbP, if_true, hkey]
    rfl
  · rw [body_setBody, if_neg h.neLY, hb, if_neg h.neLR, if_pos rfl]
  · rw [body_setBody, if_neg h.neRY, hb, if_pos rfl]
  · rw [body_setBody, if_pos rfl, hbP]
    rfl
  · rw [body_setBody, if_neg hpy, hb, if_neg hpr, if_neg hpl]
  · rw [parentOf_setBody, hp]
    split
    · rfl
    · rw [H.children_append, List.mem_append] at hc
      exact h.childL c (hc.resolve_right (by assumption))
  -- the children that stay have the parent they had, as no page is a child twice
  · rw [parentOf_setBody, hp, if_neg]
    · exact h.childR c (by rw [hchildren]; exact List.mem_append_right _ hc)
    · have hnd := h.nodupR
      rw [hchildren, List.nodup_append] at hnd
      exact fun hce => hnd.2.2 c hce c hc rfl
  · rw [parentOf_setBody, hp, if_neg]
    rw [H.children_append, hchildren, List.mem_append, List.mem_append, not_or, not_or] at hps
    exact hps.2.1

/-- The left neighbour's last item moves to the right node. -/
theorem Siblings.redistribute_left (h : Siblings H t l r y ia ib nl nr) {e : K × β}
    {init : List (K × β)} (hl : l.items = init ++ [e]) :
    ∃ t', t.redistribute l.page r.page y.page (ia.length + 1) = .ok t' ∧
      Redistributed H t t' l r y ia ib nl nr init (e :: r.items) e.1 := by
  have hchildren : H.children l.items = H.children init ++ H.children [e] := by
    rw [hl, H.children_append]
  have hchildren' : H.children (e :: r.items) = H.children [e] ++ H.children r.items := by
    rw [← H.children_append]
    rfl
  have hsome : ∀ c ∈ H.children [e], (t.body c).isSome := fun c hc =>
    isSome_of_parentOf (h.childL c (by rw [hchildren]; exact List.mem_append_right _ hc))
  have hbl : (t.body l.page).isSome := by rw [h.bodyL]; rfl
  have hbr : (t.body r.page).isSome := by rw [h.bodyR]; rfl
  -- the tree after the item has been moved; the key in the parent is changed last
  let t₁ := moved H t l.page r.page nl nr init (e :: r.items) (H.children [e])
  have hb : ∀ x, t₁.body x = _ := body_moved nl nr init (e :: r.items) (H.children [e]) hbl hbr
    h.neLR
  have hp : ∀ x, t₁.parentOf x = _ := parentOf_moved l.page r.page nl nr init (e :: r.items) hsome
  have hbP : t₁.body y.page = some (.internal (ia ++ [l.head, r.head] ++ ib)) := by
    rw [hb, if_neg h.neLY.symm, if_neg h.neRY.symm, h.bodyP]
  refine ⟨t₁.setBody y.page (.internal (ia ++ [l.head, (e.1, r.page)] ++ ib)), ?_, by simp [hl], rfl,
    by simp [t₁, moved], ?_, ?_, ?_, fun p hpl hpr hpy => ?_, fun c hc => ?_, fun c hc => ?_,
    fun p hps => ?_⟩
  -- the code moves the last item of the left node and then writes the new first key
  · have hmove : t.moveOne l.page r.page false = .ok t₁ :=
      H.moveOne_toFront (hl ▸ h.bodyL) h.bodyR hsome
    have hkey : t₁.firstKeyOf r.page = .ok e.1 :=
      H.firstKeyOf_eq (by rw [hb, if_neg h.neLR.symm, if_pos rfl])
    have hset : setKeyAt (ia ++ [l.head, r.head] ++ ib) (ia.length + 1) e.1
        = .ok (ia ++ [l.head, (e.1, r.page)] ++ ib) := by
      rw [show ia ++ [l.head, r.head] ++ ib = (ia ++ [l.head]) ++ r.head :: ib by simp,
        show ia.length + 1 = (ia ++ [l.head]).length by simp, setKeyAt_append]
      simp
    rw [redistribute]
    simp only [bind, Except.bind, hmove, getInternal_eq hbP, hkey, Nat.succ_ne_zero, if_false, hset,
      show (ia.length + 1 == 0) = false from rfl]
    rfl
  -- the three nodes, and then the parents of the children
  · rw [body_setBody, if_neg h.neLY, hb, if_pos rfl]
  · rw [body_setBody, if_neg h.neRY, hb, if_neg h.neLR.symm, if_pos rfl]
  · rw [body_setBody, if_pos rfl, hbP]
    rfl
  · rw [body_setBody, if_neg hpy, hb, if_neg hpl, if_neg hpr]
  · rw [parentOf_setBody, hp, if_neg]
    · exact h.childL c (by rw [hchildren]; exact List.mem_append_left _ hc)
    · have hnd := h.nodupL
      rw [hchildren, List.nodup_append] at hnd
      exact fun hce => hnd.2.2 c hc c hce rfl
  · rw [parentOf_setBody, hp]
    split
    · rfl
    · rw [hchildren', List.mem_append] at hc
      exact h.childR c (hc.resolve_left (by assumption))
  · rw [parentOf_setBody, hp, if_neg]
    rw [H.children_append, hchildren, List.mem_append, List.mem_append, not_or, not_or] at hps
    exact hps.1.2

/-- The two nodes are joined, whichever of them was too small. -/
theorem Siblings.coalesce (h : Siblings H t l r y ia ib nl nr) {n f : PageNum} {index : Nat}
    (hindex : (n = r.page ∧ f = l.page ∧ index = 0 ∧ ia = []) ∨
      (n = l.page ∧ f = r.page ∧ index = ia.length + 1)) :
    ∃ t', t.coalesce n f y.page index = .ok t' ∧ Coalesced H t t' l r y ia ib nr := by
  -- the tree after the item of the right node has been taken out of the parent
  let t₀ := t.setBody y.page (.internal (ia ++ [l.head] ++ ib))
  have hb₀ : ∀ x, t₀.body x = if x = y.page then some (.internal (ia ++ [l.head] ++ ib))
      else t.body x := by
    intro x
    rw [body_setBody]
    split
    · rename_i hx
      rw [hx, h.bodyP]
      rfl
    · rfl
  have hbl : t₀.body l.page = some (H.node nl l.items) := by rw [hb₀, if_neg h.neLY, h.bodyL]
  have hbr : t₀.body r.page = some (H.node nr r.items) := by rw [hb₀, if_neg h.neRY, h.bodyR]
  have hsome : ∀ c ∈ H.children r.items, (t₀.body c).isSome := fun c hc => by
    rw [isSome_body_setBody]
    exact isSome_of_parentOf (h.childR c hc)
  -- the items of the right node follow those of the left one, and its page is given back
  let t₁ := moved H t₀ r.page l.page nr nr [] (l.items ++ r.items) (H.children r.items)
  have hb : ∀ x, t₁.body x = _ := body_moved nr nr [] (l.items ++ r.items) (H.children r.items)
    (by rw [hbr]; rfl) (by rw [hbl]; rfl) h.neLR.symm
  have hp : ∀ x, t₁.parentOf x = _ := parentOf_moved r.page l.page nr nr []
    (l.items ++ r.items) hsome
  refine ⟨t₁.disposePage r.page, ?_, by simp [t₁, t₀, moved], ?_, ?_, fun p hpl hpr hpy => ?_,
    fun c hc => ?_, fun p hpr hps => ?_⟩
  -- the index in the parent is the one of the right node in both cases
  · have hmove : t₀.moveTo r.page l.page = .ok t₁ := H.moveTo_eq hbr hbl hsome
    have hremove : recoverRemoveItem (ia ++ [l.head, r.head] ++ ib) (ia.length + 1)
        = .ok (ia ++ [l.head] ++ ib) := by
      rw [show ia ++ [l.head, r.head] ++ ib = (ia ++ [l.head]) ++ r.head :: ib by simp,
        show ia.length + 1 = (ia ++ [l.head]).length by simp, recoverRemoveItem_append]
    rw [BplusTree.coalesce]
    rcases hindex with ⟨rfl, rfl, rfl, rfl⟩ | ⟨rfl, rfl, rfl⟩
    · simp only [if_true, bind, Except.bind, getInternal_eq h.bodyP]
      rw [show 0 + 1 = ([] : List (K × PageNum)).length + 1 from rfl, hremove]
      simp only []
      rw [show t.setBody y.page (.internal ([] ++ [l.head] ++ ib)) = t₀ from rfl, hmove]
      rfl
    · simp only [Nat.succ_ne_zero, if_false, bind, Except.bind, getInternal_eq h.bodyP, hremove]
      rw [show t.setBody y.page (.internal (ia ++ [l.head] ++ ib)) = t₀ from rfl, hmove]
      rfl
  -- the right page is free, the left one has all the items, and the rest is untouched
  · rw [body_disposePage, if_neg h.neLR, hb, if_neg h.neLR, if_pos rfl]
  · rw [body_disposePage, if_neg h.neRY.symm, hb, if_neg h.neRY.symm, if_neg h.neLY.symm, hb₀,
      if_pos rfl]
  · rw [body_disposePage, if_neg hpr, hb, if_neg hpr, if_neg hpl, hb₀, if_neg hpy]
  · have hcr : c ≠ r.page := by
      rintro rfl
      exact h.notChild hc
    rw [parentOf_disposePage, if_neg hcr, hp]
    split
    · rfl
    · rw [H.children_append, List.mem_append] at hc
      rw [parentOf_setBody]
      exact h.childL c (hc.resolve_right (by assumption))
  · rw [H.children_append, List.mem_append, not_or] at hps
    rw [parentOf_disposePage, if_neg hpr, hp, if_neg hps.2, parentOf_setBody]

/-- A node with enough items is left alone. -/
theorem coalesceOrRedistribute_enough {cmp : K → K → Ordering} {f next : PageNum}
    {items : List (K × β)} (fuel : Nat) (hf : t.body f = some (H.node next items))
    (hmin : t.fileHeader.minSize H.isLeaf ≤ items.length) :
    coalesceOrRedistribute cmp (fuel + 1) t f = .ok t := by
  obtain ⟨q, hq⟩ := exists_parentOf hf
  rw [coalesceOrRedistribute, getPage_eq hf hq]
  simp only [bind, Except.bind, H.size_node, H.isLeaf_node, ge_iff_le, hmin, if_true]
  rfl

/-- The code of a step, up to the choice between borrowing and joining. -/
theorem coalesceOrRedistribute_step {cmp : K → K → Ordering} {f n q nf nn : PageNum} {e : K × β}
    {init items : List (K × β)} {array : List (K × PageNum)} {index : Nat} (fuel : Nat)
    (hf : t.body f = some (H.node nf (init ++ [e]))) (hq : t.parentOf f = some q)
    (hqb : t.body q = some (.internal array)) (hlook : internalLookup cmp array e.1 = index)
    (hself : valueAt array index = .ok f)
    (hn : valueAt array (if index = 0 then 1 else index - 1) = .ok n)
    (hnb : t.body n = some (H.node nn items))
    (hsmall : (init ++ [e]).length < t.fileHeader.minSize H.isLeaf) :
    coalesceOrRedistribute cmp (fuel + 1) t f =
      if (init ++ [e]).length + items.length > t.fileHeader.maxSize H.isLeaf then
        t.redistribute n f q index
      else (t.coalesce n f q index) >>= fun t => coalesceOrRedistribute cmp fuel t q := by
  obtain ⟨q', hq'⟩ := exists_parentOf hnb
  rw [coalesceOrRedistribute, getPage_eq hf hq]
  simp only [bind, Except.bind, H.size_node, H.isLeaf_node, ge_iff_le, Nat.not_le.mpr hsmall,
    if_false, ne_invalid_of_body hqb, getInternal_eq hqb, H.lastKeyOf_eq hf, hlook, hself, ne_eq,
    not_true_eq_false, hn, getPage_eq hnb hq']

/-- **One step of `coalesce_or_redistribute`** on node `f` (`l` or `r`), which is below its minimum
    size and whose parent lookup finds it. -/
theorem Siblings.step {cmp : K → K → Ordering} (h : Siblings H t l r y ia ib nl nr) (fuel : Nat)
    {f : Seg K β} {e : K × β} {init : List (K × β)} (hf : f.items = init ++ [e])
    (hindex : (f = l ∧ ia = [] ∧ internalLookup cmp y.items e.1 = 0) ∨
      (f = r ∧ internalLookup cmp y.items e.1 = ia.length + 1))
    (hy : y.items = ia ++ [l.head, r.head] ++ ib) (hparent : t.parentOf f.page = some y.page)
    (hsmall : f.items.length < t.fileHeader.minSize H.isLeaf) :
    (t.fileHeader.maxSize H.isLeaf < l.items.length + r.items.length ∧
      ∃ t' es fs k, coalesceOrRedistribute cmp (fuel + 1) t f.page = .ok t' ∧
        Redistributed H t t' l r y ia ib nl nr es fs k ∧
        ((f = l ∧ es.length = l.items.length + 1 ∧ fs.length + 1 = r.items.length) ∨
          (f = r ∧ es.length + 1 = l.items.length ∧ fs.length = r.items.length + 1))) ∨
    (l.items.length + r.items.length ≤ t.fileHeader.maxSize H.isLeaf ∧
      ∃ t', coalesceOrRedistribute cmp (fuel + 1) t f.page
          = coalesceOrRedistribute cmp fuel t' y.page ∧
        Coalesced H t t' l r y ia ib nr) := by
  have hyb : t.body y.page = some (.internal y.items) := by rw [h.bodyP, hy]
  rcases hindex with ⟨rfl, rfl, hlook⟩ | ⟨rfl, hlook⟩
  · -- the neighbour is at the right
    have hbf := h.bodyL
    rw [hf] at hbf
    have hcode := coalesceOrRedistribute_step fuel hbf hparent hyb hlook (by rw [hy]; rfl)
      (by rw [hy]; rfl) h.bodyR (by rwa [← hf])
    rw [← hf] at hcode
    rcases Nat.lt_or_ge (t.fileHeader.maxSize H.isLeaf) (f.items.length + r.items.length) with
      hbig | hfits
    · refine Or.inl ⟨hbig, ?_⟩
      obtain ⟨e₁, e₂, rest, hr⟩ : ∃ e₁ e₂ rest, r.items = e₁ :: e₂ :: rest := by
        have : 2 ≤ r.items.length := by
          rw [IndexFileHeader.minSize] at hsmall
          omega
        match r.items, this with
        | e₁ :: e₂ :: rest, _ => exact ⟨e₁, e₂, rest, rfl⟩
      obtain ⟨t', hok, hred⟩ := h.redistribute_right hr
      exact ⟨t', _, _, _, by rw [hcode, if_pos hbig, hok], hred, Or.inl ⟨rfl, by simp, by simp [hr]⟩⟩
    · refine Or.inr ⟨hfits, ?_⟩
      obtain ⟨t', hok, hco⟩ := h.coalesce (Or.inl ⟨rfl, rfl, rfl, rfl⟩)
      refine ⟨t', ?_, hco⟩
      rw [hcode, if_neg (Nat.not_lt.mpr hfits), hok]
      rfl
  · -- the neighbour is at the left
    have hbf := h.bodyR
    rw [hf] at hbf
    have hself : valueAt y.items (ia.length + 1) = .ok f.page := by
      rw [hy, show ia ++ [l.head, f.head] ++ ib = (ia ++ [l.head]) ++ f.head :: ib by simp,
        show ia.length + 1 = (ia ++ [l.head]).length by simp, valueAt_append]
      rfl
    have hneighbor : valueAt y.items (if ia.length + 1 = 0 then 1 else ia.length + 1 - 1)
        = .ok l.page := by
      rw [if_neg (Nat.succ_ne_zero _), Nat.add_sub_cancel, hy, List.append_assoc, List.cons_append,
        valueAt_append]
      rfl
    have hcode := coalesceOrRedistribute_step fuel hbf hparent hyb hlook hself hneighbor h.bodyL
      (by rwa [← hf])
    rw [← hf, Nat.add_comm f.items.length] at hcode
    rcases Nat.lt_or_ge (t.fileHeader.maxSize H.isLeaf) (l.items.length + f.items.length) with
      hbig | hfits
    · refine Or.inl ⟨hbig, ?_⟩
      obtain ⟨init', e', hl⟩ : ∃ init' e', l.items = init' ++ [e'] := by
        have : 2 ≤ l.items.length := by
          rw [IndexFileHeader.minSize] at hsmall
          omega
        rcases List.eq_nil_or_concat l.items with hn | ⟨init', e', hl⟩
        · simp [hn] at this
        · exact ⟨init', e', by rw [hl, List.concat_eq_append]⟩
      obtain ⟨t', hok, hred⟩ := h.redistribute_left hl
      exact ⟨t', _, _, _, by rw [hcode, if_pos hbig, hok], hred, Or.inr ⟨rfl, by simp [hl], by simp⟩⟩
    · refine Or.inr ⟨hfits, ?_⟩
      obtain ⟨t', hok, hco⟩ := h.coalesce (Or.inr ⟨rfl, rfl, rfl⟩)
      refine ⟨t', ?_, hco⟩
      rw [hcode, if_neg (Nat.not_lt.mpr hfits), hok]
      rfl

end Step

/-! ## The levels above a step -/

section Above

variable {H : NodeHandler K V β} {zeroKey : K} {t t' : BplusTree K V} {S SA SB : List (Seg K β)}
  {P PA PB : Level K} {l r : Seg K β} {y : Seg K PageNum} {ia ib : List (K × PageNum)}
  {nl nr : PageNum} {Ps : List (Level K)}

/-- The items of `y` over the window are edited from `[l, r]` to `M`. -/
theorem Window.setItems (w : Window S P SA l r SB PA y PB ia ib) {M : List (K × PageNum)}
    (h : Levels zeroKey t (S.map Seg.head) (P :: Ps))
    (hnd : (S.map Seg.page ++ pages (P :: Ps)).Nodup)
    (hhead : M.head?.map Prod.fst = some l.sep)
    (hM : ∀ c ∈ M, c.2 = l.page ∨ c.2 = r.page)
    (hroot : t'.fileHeader.rootPage = t.fileHeader.rootPage)
    (hbodyP : t'.body y.page = some (.internal (ia ++ M ++ ib)))
    (hbody : ∀ p, p ≠ l.page → p ≠ r.page → p ≠ y.page → t'.body p = t.body p)
    (hparent : ∀ p, p ∈ S.map Seg.page ++ pages (P :: Ps) →
      (p = r.page → r.page ∈ M.map Prod.snd) → t'.parentOf p = t.parentOf p) :
    Levels zeroKey t' (SA.map Seg.head ++ M ++ SB.map Seg.head)
      ((PA ++ ⟨y.sep, y.page, ia ++ M ++ ib⟩ :: PB) :: Ps) := by
  obtain ⟨rfl, rfl, hy, hleft, hright⟩ := w
  obtain ⟨hok, hflat, hup⟩ := h
  rw [List.nodup_append] at hnd
  obtain ⟨hndS, hndP, hdis⟩ := hnd
  have hyok := hok y (by simp)
  -- the right page is under this parent only
  have hside : ∀ s, s ∈ SA ∨ s ∈ SB → s.page ≠ r.page := by
    intro s hs
    rw [show SA ++ l :: r :: SB = (SA ++ [l]) ++ r :: SB by simp] at hndS
    exact ne_of_nodup_append_cons hndS (by rcases hs with hs | hs <;> simp [hs])
  have hrP : r.page ∉ pages ((PA ++ y :: PB) :: Ps) := fun hp => hdis r.page (by simp) _ hp rfl
  have hlP : l.page ∉ pages ((PA ++ y :: PB) :: Ps) := fun hp => hdis l.page (by simp) _ hp rfl
  have key := Levels.setItems (N := [l.head, r.head]) (M := M) ⟨hok, rfl, hup⟩ hy (by simpa using hhead)
    (by simp) hroot hndP hbodyP (fun p hp hpy => hbody p ?_ ?_ hpy) (fun c hc => ?_) (fun c hc => ?_)
    fun p hp => hparent p (List.mem_append_right _ hp) fun hpr => absurd (hpr ▸ hp) hrP
  -- the level above lists what is below it
  · have hflat' : (PA ++ ⟨y.sep, y.page, ia ++ M ++ ib⟩ :: PB).flatMap Seg.items
        = SA.map Seg.head ++ M ++ SB.map Seg.head := by
      rw [hleft, hright]
      simp
    rwa [hflat'] at key
  · rintro rfl
    exact hlP hp
  · rintro rfl
    exact hrP hp
  -- the children of the parent point to it, whichever of the two they are
  · rcases hM c hc with hcl | hcr
    · rw [hcl, hparent l.page (by simp) fun hlr => ?_]
      · exact hyok.parent l.head (by simp [hy])
      · exact absurd hlr (ne_of_nodup_append_cons (y := l) (B := r :: SB) hndS (Or.inr (by simp))).symm
    · rw [hcr, hparent r.page (by simp) fun _ => hcr ▸ List.mem_map_of_mem hc]
      exact hyok.parent r.head (by simp [hy])
  · rw [← hleft, ← hright, List.mem_append, List.mem_map, List.mem_map] at hc
    rcases hc with ⟨s, hs, rfl⟩ | ⟨s, hs, rfl⟩
    · refine hparent s.page ?_ fun hp => absurd hp (hside s (Or.inl hs))
      exact List.mem_append_left _ (List.mem_map_of_mem (by simp [hs]))
    · refine hparent s.page ?_ fun hp => absurd hp (hside s (Or.inr hs))
      exact List.mem_append_left _ (List.mem_map_of_mem (by simp [hs]))

/-- Borrowing changes the right node's separator. -/
theorem Redistributed.levels {es fs : List (K × β)} {k : K}
    (hred : Redistributed H t t' l r y ia ib nl nr es fs k)
    (w : Window S P SA l r SB PA y PB ia ib) (h : Levels zeroKey t (S.map Seg.head) (P :: Ps))
    (hnd : (S.map Seg.page ++ pages (P :: Ps)).Nodup)
    (hdis : ∀ p ∈ S.map Seg.page ++ pages (P :: Ps), p ∉ H.children (l.items ++ r.items)) :
    Levels zeroKey t' ((SA ++ ⟨l.sep, l.page, es⟩ :: ⟨k, r.page, fs⟩ :: SB).map Seg.head)
      ((PA ++ ⟨y.sep, y.page, ia ++ [l.head, (k, r.page)] ++ ib⟩ :: PB) :: Ps) := by
  have := w.setItems (M := [l.head, (k, r.page)]) h hnd rfl (by simp) (by rw [hred.header]) hred.bodyP
    hred.body fun p hp _ => hred.parentOf p (hdis p hp)
  simpa [Seg.head] using this

/-- Joining removes the right node from the parent. -/
theorem Coalesced.levels (hco : Coalesced H t t' l r y ia ib nr)
    (w : Window S P SA l r SB PA y PB ia ib) (h : Levels zeroKey t (S.map Seg.head) (P :: Ps))
    (hnd : (S.map Seg.page ++ pages (P :: Ps)).Nodup) (hlr : l.page ≠ r.page)
    (hdis : ∀ p ∈ S.map Seg.page ++ pages (P :: Ps), p ∉ H.children (l.items ++ r.items)) :
    Levels zeroKey t' ((SA ++ ⟨l.sep, l.page, l.items ++ r.items⟩ :: SB).map Seg.head)
      ((PA ++ ⟨y.sep, y.page, ia ++ [l.head] ++ ib⟩ :: PB) :: Ps) := by
  have := w.setItems (M := [l.head]) h hnd rfl (by simp) (by rw [hco.header]) hco.bodyP hco.body
    fun p hp hpr => hco.parentOf p (fun hp' => hlr (List.mem_singleton.mp (hpr hp')).symm) (hdis p hp)
  simpa [Seg.head] using this

end Above

end Miniob.Index
