/-
  What the rest of an insertion or deletion touches, once it is known to stop at a page `top`.

  Two trees run side by side.  They have the same pages but for a part `outside` in which they may
  hold anything, and nothing that is not in that part leads into it: no internal node lists one of its
  pages, and no parent field names one, except that of `top`.  Whatever the tree code does from a page
  below `top` on, it does in both trees alike, leaves the part outside as it is and keeps the file
  header, provided `top` has room for one more entry, or one to spare.

  `keep` says that the node of `top` has not been changed yet: it has the size it had before.
-/
import Miniob.Common.Run
import Miniob.Index.Pages

namespace Miniob.Index

open Miniob.Common Miniob.Storage BplusTree

variable {K V : Type}

/-! ## Items -/

section Items

variable {outside : PageNum → Prop} {top : PageNum}

/-- An insertion brings in no other items than those inserted. -/
theorem mem_recoverInsertItems {β : Type} {array items array' : List (K × β)} {index : Nat}
    (hrec : recoverInsertItems array index items = .ok array') :
    ∀ x ∈ array', x ∈ array ∨ x ∈ items := by
  unfold recoverInsertItems at hrec
  split at hrec
  · obtain rfl := Except.ok.inj hrec
    intro x hx
    rcases List.mem_append.mp hx with hx | hx
    · rcases List.mem_append.mp hx with hx | hx
      · exact Or.inl (List.mem_of_mem_take hx)
      · exact Or.inr hx
    · exact Or.inl (List.mem_of_mem_drop hx)
  · cases hrec

/-- A removal brings in no item, and takes out one. -/
theorem mem_recoverRemoveItem {β : Type} {array array' : List (K × β)} {index : Nat}
    (hrec : recoverRemoveItem array index = .ok array') :
    (∀ x ∈ array', x ∈ array) ∧ array'.length + 1 = array.length := by
  unfold recoverRemoveItem at hrec
  split at hrec
  · obtain rfl := Except.ok.inj hrec
    refine ⟨fun x hx => ?_, ?_⟩
    · rcases List.mem_append.mp hx with hx | hx
      · exact List.mem_of_mem_take hx
      · exact List.mem_of_mem_drop hx
    · rw [List.length_append, List.length_take, List.length_drop]
      omega
  · cases hrec

/-- The pages that some items name are inside, and none of them is `top`. -/
def Inner (outside : PageNum → Prop) (top : PageNum) (items : List (K × PageNum)) : Prop :=
  ∀ c ∈ items.map Prod.snd, ¬ outside c ∧ c ≠ top

theorem Inner.nil : Inner outside top ([] : List (K × PageNum)) := fun _ hc => absurd hc List.not_mem_nil

/-- Fewer items point to fewer pages. -/
theorem Inner.subset {items items' : List (K × PageNum)} (h : Inner outside top items)
    (hsub : ∀ x ∈ items', x ∈ items) : Inner outside top items' := by
  intro c hc
  obtain ⟨x, hx, rfl⟩ := List.mem_map.mp hc
  exact h _ (List.mem_map_of_mem (hsub x hx))

/-- The items of a node still point inside when inner ones are inserted. -/
theorem Inner.insert {array items array' : List (K × PageNum)} {index : Nat}
    (h : Inner outside top array) (hitems : Inner outside top items)
    (hrec : recoverInsertItems array index items = .ok array') : Inner outside top array' := by
  intro c hc
  obtain ⟨x, hx, rfl⟩ := List.mem_map.mp hc
  rcases mem_recoverInsertItems hrec x hx with hx | hx
  · exact h _ (List.mem_map_of_mem hx)
  · exact hitems _ (List.mem_map_of_mem hx)

/-- The children of a node are inside. -/
def NodeBody.Inner (outside : PageNum → Prop) (top : PageNum) (b : NodeBody K V) : Prop :=
  ∀ array, b = .internal array → Index.Inner outside top array

/-- A leaf points to no children. -/
theorem NodeBody.leaf_inner (next : PageNum) (array : List (K × V)) :
    NodeBody.Inner outside top (.leaf next array) := by
  intro array heq
  cases heq

/-- An internal node points where its items do. -/
theorem NodeBody.internal_inner {array : List (K × PageNum)} (h : Index.Inner outside top array) :
    NodeBody.Inner outside top (.internal array : NodeBody K V) := by
  intro array' heq
  obtain rfl := NodeBody.internal.inj heq
  exact h

end Items

/-- Nothing leads from the pages inside to those outside, but the parent field of `top`. -/
structure Closed (outside : PageNum → Prop) (top : PageNum) (t : BplusTree K V) : Prop where
  /-- `top` itself is inside. -/
  top_inside : ¬ outside top
  top_isSome : (t.body top).isSome
  /-- The children of what is inside are inside. -/
  children : ∀ p array, ¬ outside p → t.body p = some (.internal array) → Inner outside top array
  /-- So are the parents, but for the one of `top`. -/
  parents : ∀ p q, ¬ outside p → p ≠ top → t.parentOf p = some q →
    ¬ outside q ∧ q ≠ bpInvalidPageNum

/-- The trees `t` and `u`, which have come from `t₀` and `u₀`, differ outside only. -/
structure Apart (outside : PageNum → Prop) (top : PageNum) (t₀ u₀ : BplusTree K V) (keep : Prop)
    (t u : BplusTree K V) : Prop where
  closed : Closed outside top t
  header : t.fileHeader = t₀.fileHeader
  /-- The roots are the same. -/
  sameHeader : u.fileHeader = t.fileHeader
  pageCount : u.pool.pageCount = t.pool.pageCount
  /-- Inside, the trees are the same. -/
  same : ∀ p, ¬ outside p → u.pool.page p = t.pool.page p
  /-- Outside, nothing has been written. -/
  untouched : ∀ p, outside p → t.pool.page p = t₀.pool.page p ∧ u.pool.page p = u₀.pool.page p
  isSome : ∀ p, outside p → (t.pool.page p).isSome ∧ (u.pool.page p).isSome
  /-- While it is to be kept, `top` has its items. -/
  kept : keep → t.body top = t₀.body top
  /-- The parent of `top` is not written. -/
  parentTop : t.parentOf top = t₀.parentOf top

namespace Apart

variable {outside : PageNum → Prop} {top : PageNum} {t₀ u₀ : BplusTree K V} {keep : Prop}
  {t u : BplusTree K V} {p q : PageNum}

/-- Two trees with the same inner pages have not come apart. -/
theorem refl (hclosed : Closed outside top t) (hheader : u.fileHeader = t.fileHeader)
    (hcount : u.pool.pageCount = t.pool.pageCount)
    (hsame : ∀ p, ¬ outside p → u.pool.page p = t.pool.page p)
    (hsome : ∀ p, outside p → (t.pool.page p).isSome ∧ (u.pool.page p).isSome) :
    Apart outside top t u True t u :=
  ⟨hclosed, rfl, hheader, hcount, hsame, fun _ _ => ⟨rfl, rfl⟩, hsome, fun _ => rfl, rfl⟩

/-- From the trees as they are now. -/
theorem rebase (h : Apart outside top t₀ u₀ keep t u) : Apart outside top t u True t u :=
  refl h.closed h.sameHeader h.pageCount h.same h.isSome

/-- Two parts of an operation, one after the other. -/
theorem trans {t' u' : BplusTree K V} (h : Apart outside top t₀ u₀ keep t u)
    (h' : Apart outside top t u True t' u') : Apart outside top t₀ u₀ keep t' u' where
  closed := h'.closed
  header := h'.header.trans h.header
  sameHeader := h'.sameHeader
  pageCount := h'.pageCount
  same := h'.same
  untouched := fun p hp => ⟨(h'.untouched p hp).1.trans (h.untouched p hp).1,
    (h'.untouched p hp).2.trans (h.untouched p hp).2⟩
  isSome := h'.isSome
  kept := fun hk => (h'.kept trivial).trans (h.kept hk)
  parentTop := h'.parentTop.trans h.parentTop

/-- That the top page is kept can be forgotten. -/
theorem not_keep (h : Apart outside top t₀ u₀ keep t u) : Apart outside top t₀ u₀ False t u :=
  { h with kept := False.elim }

/-! ## Reading -/

section Reading

variable (h : Apart outside top t₀ u₀ keep t u)
include h

/-- An inner page is read alike in both trees. -/
theorem getPage (hp : ¬ outside p) : u.getPage p = t.getPage p := by
  unfold BplusTree.getPage
  rw [h.same p hp]

theorem getInternal (hp : ¬ outside p) : u.getInternal p = t.getInternal p := by
  unfold BplusTree.getInternal
  rw [h.same p hp]

theorem getLeaf (hp : ¬ outside p) : u.getLeaf p = t.getLeaf p := by
  unfold BplusTree.getLeaf
  rw [h.same p hp]

theorem firstKeyOf (hp : ¬ outside p) : u.firstKeyOf p = t.firstKeyOf p := by
  unfold BplusTree.firstKeyOf
  rw [h.getPage hp]

theorem lastKeyOf (hp : ¬ outside p) : u.lastKeyOf p = t.lastKeyOf p := by
  unfold BplusTree.lastKeyOf
  rw [h.getPage hp]

/-- Both trees allocate the same page. -/
theorem freePage_eq : u.pool.freePage = t.pool.freePage := by
  have hsome (p : PageNum) : (u.pool.page p).isNone = (t.pool.page p).isNone := by
    by_cases hp : outside p
    · rw [← Option.not_isSome, ← Option.not_isSome, (h.isSome p hp).1, (h.isSome p hp).2]
    · rw [h.same p hp]
  exact PagePool.freePage_congr h.pageCount hsome

/-- The page that is allocated is not outside: those are taken. -/
theorem freePage_inside : ¬ outside t.pool.freePage := by
  intro hout
  have hsome := (h.isSome _ hout).1
  rw [t.pool.freePage_spec.2.2] at hsome
  cases hsome

/-- Nor is it the top page. -/
theorem freePage_ne_top : t.pool.freePage ≠ top := by
  intro heq
  have hsome := h.closed.top_isSome
  rw [← heq, body_freePage] at hsome
  cases hsome

/-- From an inner page other than the top, the way up stays inside. -/
theorem parent_inside {node : IndexNode K V} (hget : t.getPage p = .ok node) (hp : ¬ outside p)
    (htop : p ≠ top) : ¬ outside node.parent ∧ node.parent ≠ bpInvalidPageNum := by
  refine h.closed.parents p node.parent hp htop ?_
  unfold BplusTree.getPage at hget
  unfold parentOf
  cases hpage : t.pool.page p with
  | none => rw [hpage] at hget; cases hget
  | some n =>
    rw [hpage] at hget
    obtain rfl := Except.ok.inj hget
    rfl

/-- The way down stays inside as well. -/
theorem children_inside {array : List (K × PageNum)} (hget : t.getInternal p = .ok array)
    (hp : ¬ outside p) : Inner outside top array := by
  refine h.closed.children p array hp ?_
  unfold BplusTree.getInternal at hget
  unfold body
  split at hget
  · rename_i hpage
    obtain rfl := Except.ok.inj hget
    rw [hpage]
    rfl
  · cases hget
  · cases hget

end Reading

/-- The same new page in both trees. -/
def SplitOff (outside : PageNum → Prop) (top : PageNum) (t₀ u₀ : BplusTree K V) (keep : Prop)
    (a b : PageNum × BplusTree K V) : Prop :=
  a.1 = b.1 ∧ (¬ outside a.1 ∧ a.1 ≠ bpInvalidPageNum) ∧ a.1 ≠ top ∧
    Apart outside top t₀ u₀ keep a.2 b.2

/-! ## Changing -/

section Changing

variable (h : Apart outside top t₀ u₀ keep t u)
include h

/-- A page inside is rewritten in both trees, and what is there does not lead outside. -/
theorem modifyPage (hp : ¬ outside p) (f : IndexNode K V → IndexNode K V)
    (hclosed : Closed outside top { t with pool := t.pool.modifyPage p f })
    (hkept : keep → ({ t with pool := t.pool.modifyPage p f } : BplusTree K V).body top = t₀.body top)
    (hparent : ({ t with pool := t.pool.modifyPage p f } : BplusTree K V).parentOf top = t.parentOf top) :
    Apart outside top t₀ u₀ keep { t with pool := t.pool.modifyPage p f }
      { u with pool := u.pool.modifyPage p f } where
  closed := hclosed
  header := h.header
  sameHeader := h.sameHeader
  pageCount := h.pageCount
  same := by
    intro q hq
    show (if q = p then (u.pool.page q).map f else u.pool.page q) = if q = p then _ else _
    rw [h.same q hq]
  untouched := by
    intro q hq
    have hne : q ≠ p := fun heq => hp (heq ▸ hq)
    rw [PagePool.page_modifyPage, PagePool.page_modifyPage, if_neg hne, if_neg hne]
    exact h.untouched q hq
  isSome := by
    intro q hq
    have hne : q ≠ p := fun heq => hp (heq ▸ hq)
    rw [PagePool.page_modifyPage, PagePool.page_modifyPage, if_neg hne, if_neg hne]
    exact h.isSome q hq
  kept := hkept
  parentTop := hparent.trans h.parentTop

/-- The same body is written to an inner page of both. -/
theorem setBody (hp : ¬ outside p) (hkeep : keep → p ≠ top) {b : NodeBody K V}
    (hb : b.Inner outside top) :
    Apart outside top t₀ u₀ keep (t.setBody p b) (u.setBody p b) := by
  refine h.modifyPage hp _ ⟨h.closed.top_inside, ?_, ?_, ?_⟩ ?_ (parentOf_setBody t p top b)
  · exact (isSome_body_setBody t p top b).trans h.closed.top_isSome
  · intro q array hq hbody
    change (t.setBody p b).body q = _ at hbody
    rw [body_setBody] at hbody
    split at hbody
    · obtain ⟨_, -, rfl⟩ := Option.map_eq_some_iff.mp hbody
      exact hb array rfl
    · exact h.closed.children q array hq hbody
  · intro q r hq hne hparent
    exact h.closed.parents q r hq hne ((parentOf_setBody t p q b).symm.trans hparent)
  · intro hk
    change (t.setBody p b).body top = _
    rw [body_setBody, if_neg (hkeep hk).symm]
    exact h.kept hk

/-- The same parent is written into an inner page of both. -/
theorem setParent (hp : ¬ outside p ∧ p ≠ top) (hq : ¬ outside q ∧ q ≠ bpInvalidPageNum) :
    Apart outside top t₀ u₀ keep (t.setParent p q) (u.setParent p q) := by
  refine h.modifyPage hp.1 _ ⟨h.closed.top_inside, ?_, ?_, ?_⟩ ?_ ?_
  · exact (congrArg Option.isSome (body_setParent t p q top)).trans h.closed.top_isSome
  · exact fun r array hr hbody => h.closed.children r array hr ((body_setParent t p q r).symm.trans hbody)
  · intro r r' hr hne hparent
    change (t.setParent p q).parentOf r = _ at hparent
    rw [parentOf_setParent] at hparent
    split at hparent
    · obtain ⟨_, -, rfl⟩ := Option.map_eq_some_iff.mp hparent
      exact hq
    · exact h.closed.parents r r' hr hne hparent
  · exact fun hk => (body_setParent t p q top).trans (h.kept hk)
  · exact (parentOf_setParent t p q top).trans (if_neg hp.2.symm)

/-- The same inner page is disposed of in both. -/
theorem disposePage (hp : ¬ outside p) (htop : p ≠ top) :
    Apart outside top t₀ u₀ keep (t.disposePage p) (u.disposePage p) where
  closed := by
    refine ⟨h.closed.top_inside, ?_, ?_, ?_⟩
    -- the page given back is not the top one
    · rw [body_disposePage, if_neg htop.symm]
      exact h.closed.top_isSome
    · intro q array hq hbody
      rw [body_disposePage] at hbody
      split at hbody
      · cases hbody
      · exact h.closed.children q array hq hbody
    · intro q r hq hne hparent
      rw [parentOf_disposePage] at hparent
      split at hparent
      · cases hparent
      · exact h.closed.parents q r hq hne hparent
  header := h.header
  sameHeader := h.sameHeader
  pageCount := h.pageCount
  -- both trees lose the same page
  same := by
    intro q hq
    show (if q = p then none else u.pool.page q) = if q = p then none else _
    rw [h.same q hq]
  untouched := by
    intro q hq
    have hne : q ≠ p := fun heq => hp (heq ▸ hq)
    show (if q = p then none else t.pool.page q) = _ ∧ (if q = p then none else u.pool.page q) = _
    rw [if_neg hne, if_neg hne]
    exact h.untouched q hq
  isSome := by
    intro q hq
    have hne : q ≠ p := fun heq => hp (heq ▸ hq)
    show (if q = p then none else t.pool.page q).isSome ∧ (if q = p then none else u.pool.page q).isSome
    rw [if_neg hne, if_neg hne]
    exact h.isSome q hq
  kept := by
    intro hk
    rw [body_disposePage, if_neg htop.symm]
    exact h.kept hk
  parentTop := by
    rw [parentOf_disposePage, if_neg htop.symm]
    exact h.parentTop

/-- A new node beside one whose parent is `q`. -/
theorem allocate (hq : ¬ outside q ∧ q ≠ bpInvalidPageNum) {b : NodeBody K V}
    (hb : b.Inner outside top) :
    SplitOff outside top t₀ u₀ keep
      ((t.allocateNode b).1, (t.allocateNode b).2.setParent (t.allocateNode b).1 q)
      ((u.allocateNode b).1, (u.allocateNode b).2.setParent (u.allocateNode b).1 q) := by
  have hfree := h.freePage_inside
  have hvalid : t.pool.freePage ≠ bpInvalidPageNum := by
    intro heq
    have := t.pool.freePage_spec.1
    rw [heq] at this
    exact absurd this (by decide)
  have hpage (v : BplusTree K V) (hv : v.pool.freePage = t.pool.freePage) (r : PageNum) :
      ((v.allocateNode b).2.setParent v.pool.freePage q).pool.page r
        = if r = t.pool.freePage then some ⟨q, b⟩ else v.pool.page r := by
    show (if r = v.pool.freePage then Option.map _ (if r = v.pool.freePage then _ else _)
      else if r = v.pool.freePage then _ else _) = _
    rw [hv]
    by_cases heq : r = t.pool.freePage
    · rw [if_pos heq, if_pos heq, if_pos heq]
      rfl
    · rw [if_neg heq, if_neg heq, if_neg heq]
  have hout (r : PageNum) (hr : outside r) : r ≠ t.pool.freePage := fun heq => hfree (heq ▸ hr)
  refine ⟨h.freePage_eq.symm, ⟨hfree, hvalid⟩, h.freePage_ne_top, ⟨h.closed.top_inside, ?_, ?_, ?_⟩,
    h.header, h.sameHeader, ?_, ?_, ?_, ?_, ?_, ?_⟩
  · show (body _ top).isSome
    unfold body
    rw [allocateNode_fst, hpage t rfl, if_neg h.freePage_ne_top.symm]
    exact h.closed.top_isSome
  · intro r array hr hbody
    unfold body at hbody
    rw [allocateNode_fst, hpage t rfl] at hbody
    split at hbody
    · exact hb array (Option.some.inj hbody)
    · exact h.closed.children r array hr hbody
  · intro r r' hr hne hparent
    unfold parentOf at hparent
    rw [allocateNode_fst, hpage t rfl] at hparent
    split at hparent
    · obtain rfl := Option.some.inj hparent
      exact hq
    · exact h.closed.parents r r' hr hne hparent
  · show max u.pool.pageCount (u.pool.freePage.toNat + 1) = max t.pool.pageCount (t.pool.freePage.toNat + 1)
    rw [h.pageCount, h.freePage_eq]
  · intro r hr
    rw [allocateNode_fst, allocateNode_fst, hpage t rfl, hpage u h.freePage_eq, h.same r hr]
  · intro r hr
    rw [allocateNode_fst, allocateNode_fst, hpage t rfl, hpage u h.freePage_eq, if_neg (hout r hr),
      if_neg (hout r hr)]
    exact h.untouched r hr
  · intro r hr
    rw [allocateNode_fst, allocateNode_fst, hpage t rfl, hpage u h.freePage_eq, if_neg (hout r hr),
      if_neg (hout r hr)]
    exact h.isSome r hr
  · intro hk
    unfold body
    rw [allocateNode_fst, hpage t rfl, if_neg h.freePage_ne_top.symm]
    exact h.kept hk
  · unfold parentOf
    rw [allocateNode_fst, hpage t rfl, if_neg h.freePage_ne_top.symm]
    exact h.parentTop

end Changing

/-! ## The tree code -/

/-- Where the page is not there, both fail alike. -/
theorem setParentPageNum (h : Apart outside top t₀ u₀ keep t u) (hp : ¬ outside p ∧ p ≠ top)
    (hq : ¬ outside q ∧ q ≠ bpInvalidPageNum) :
    Agree (Apart outside top t₀ u₀ keep) (t.setParentPageNum p q) (u.setParentPageNum p q) := by
  unfold BplusTree.setParentPageNum
  rw [h.getPage hp.1]
  exact (Agree.same _).bind fun _ _ _ => .ok (h.setParent hp hq)

/-- The induction is on the children that are handed over. -/
theorem setChildrenParent (hq : ¬ outside q ∧ q ≠ bpInvalidPageNum) :
    ∀ {cs : List PageNum} {t u : BplusTree K V}, Apart outside top t₀ u₀ keep t u →
      (∀ c ∈ cs, ¬ outside c ∧ c ≠ top) →
      Agree (Apart outside top t₀ u₀ keep) (t.setChildrenParent q cs) (u.setChildrenParent q cs)
  | [], _, _, h, _ => .ok h
  | c :: _, _, _, h, hcs =>
    (h.setParentPageNum (hcs c List.mem_cons_self) hq).bind fun _ _ h' =>
      h'.setChildrenParent hq fun c' hc' => hcs c' (List.mem_cons_of_mem c hc')

/-- A node whose children are inside. -/
theorem setInternal (h : Apart outside top t₀ u₀ keep t u) (hp : ¬ outside p)
    (hkeep : keep → p ≠ top) {array : List (K × PageNum)} (harray : Inner outside top array) :
    Apart outside top t₀ u₀ keep (t.setBody p (.internal array)) (u.setBody p (.internal array)) :=
  h.setBody hp hkeep (NodeBody.internal_inner harray)

/-- A leaf points to no page but its neighbour, which is not followed. -/
theorem setLeaf (h : Apart outside top t₀ u₀ keep t u) (hp : ¬ outside p) (hkeep : keep → p ≠ top)
    (next : PageNum) (array : List (K × V)) :
    Apart outside top t₀ u₀ keep (t.setBody p (.leaf next array)) (u.setBody p (.leaf next array)) :=
  h.setBody hp hkeep (NodeBody.leaf_inner next array)

/-- Items are inserted, and their children handed over. -/
theorem insertItems (h : Apart outside top t₀ u₀ keep t u) (hq : ¬ outside q ∧ q ≠ bpInvalidPageNum)
    (hkeep : keep → q ≠ top) {array items : List (K × PageNum)} (harray : Inner outside top array)
    (hitems : Inner outside top items) (index : Nat) :
    Agree (Apart outside top t₀ u₀ keep) (t.insertItems q array index items)
      (u.insertItems q array index items) := by
  unfold BplusTree.insertItems
  refine (Agree.same _).bind ?_
  rintro array' _ ⟨rfl, hrec⟩
  exact (h.setInternal hq.1 hkeep (harray.insert hitems hrec)).setChildrenParent hq hitems

/-- Both halves are inner pages again. -/
theorem splitLeaf (h : Apart outside top t₀ u₀ keep t u) (hp : ¬ outside p) (htop : p ≠ top) :
    Agree (SplitOff outside top t₀ u₀ keep) (t.splitLeaf p) (u.splitLeaf p) := by
  unfold BplusTree.splitLeaf
  rw [h.getPage hp, h.getLeaf hp]
  refine (Agree.same _).bind ?_
  rintro node _ ⟨rfl, hnode⟩
  refine (Agree.same _).bind ?_
  rintro ⟨next, array⟩ _ ⟨rfl, -⟩
  have hnew := h.allocate (h.parent_inside hnode hp htop) (NodeBody.leaf_inner bpInvalidPageNum [])
  generalize t.allocateNode (.leaf bpInvalidPageNum []) = a at hnew ⊢
  generalize u.allocateNode (.leaf bpInvalidPageNum []) = b at hnew ⊢
  obtain ⟨newFrame, t'⟩ := a
  obtain ⟨_, u'⟩ := b
  obtain ⟨rfl, hfree, hne, hnew⟩ := hnew
  refine .ok ⟨rfl, hfree, hne, ?_⟩
  exact (hnew.setLeaf hfree.1 (fun _ => hne) _ _).setLeaf hp (fun _ => htop) _ _

/-- Both halves are inner pages again, and so are the children of the new one. -/
theorem splitInternal (h : Apart outside top t₀ u₀ keep t u) (hp : ¬ outside p) (htop : p ≠ top) :
    Agree (SplitOff outside top t₀ u₀ keep) (t.splitInternal p) (u.splitInternal p) := by
  unfold BplusTree.splitInternal
  rw [h.getPage hp, h.getInternal hp]
  refine (Agree.same _).bind ?_
  rintro node _ ⟨rfl, hnode⟩
  refine (Agree.same _).bind ?_
  rintro array _ ⟨rfl, harray⟩
  have hinner : Inner outside top array := h.children_inside harray hp
  have hnew := h.allocate (h.parent_inside hnode hp htop) (NodeBody.internal_inner Inner.nil)
  generalize t.allocateNode (.internal []) = a at hnew ⊢
  generalize u.allocateNode (.internal []) = b at hnew ⊢
  obtain ⟨newFrame, t'⟩ := a
  obtain ⟨_, u'⟩ := b
  obtain ⟨rfl, hfree, hne, hnew⟩ := hnew
  refine (hnew.insertItems hfree (fun _ => hne) Inner.nil
    (hinner.subset fun x hx => List.mem_of_mem_drop hx) 0).bind fun t' u' h' => .ok ⟨rfl, hfree, hne, ?_⟩
  exact h'.setInternal hp (fun _ => htop) (hinner.subset fun x hx => List.mem_of_mem_take hx)

end Apart
end Miniob.Index
