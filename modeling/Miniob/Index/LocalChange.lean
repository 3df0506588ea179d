/-
  Insertions and deletions that stop at a page `top` touch nothing outside (`Apart` in Locality).

  An insertion stops there if the node has room for one more entry, a deletion if the node stays as it is
  when it loses one.  The recursion goes from a node to its parent, so `top` is the last page it can come to.
-/
import Miniob.Index.Locality

namespace Miniob.Index

open Miniob.Common Miniob.Storage BplusTree

variable {K V : Type}

namespace Apart

variable {outside : PageNum → Prop} {top : PageNum} {t₀ u₀ : BplusTree K V} {keep : Prop}
  {t u : BplusTree K V} {p q : PageNum}

/-! ## Insertion -/

section Insertion

variable (cmp : K → K → Ordering) (zeroKey : K)

/-- An item that goes into a node. -/
theorem hang (h : Apart outside top t₀ u₀ keep t u) (hp : ¬ outside p ∧ p ≠ bpInvalidPageNum)
    (hkeep : keep → p ≠ top) {array array' : List (K × PageNum)} (harray : Inner outside top array)
    {newFrame : PageNum} (hnew : ¬ outside newFrame ∧ newFrame ≠ top) {key : K}
    (hrec : internalInsert cmp array key newFrame = .ok array') :
    Agree (Apart outside top t₀ u₀ keep)
      ((t.setBody p (.internal array')).setParentPageNum newFrame p)
      ((u.setBody p (.internal array')).setParentPageNum newFrame p) := by
  have hitems : Inner outside top [(key, newFrame)] := fun c hc => List.mem_singleton.mp hc ▸ hnew
  exact (h.setInternal hp.1 hkeep (harray.insert hitems hrec)).setParentPageNum hnew hp

/-- The node has room for one more entry. -/
def HasRoom (t : BplusTree K V) (p : PageNum) : Prop :=
  ∀ b, t.body p = some b → b.size < t.fileHeader.maxSize b.isLeaf

/-- Nothing above `top` is split, because `top` is not.  Induction on the fuel; the frame is a page
    below `top` at every step. -/
theorem insertEntryIntoParent (hroom : HasRoom t₀ top) : ∀ {fuel : Nat} {t u : BplusTree K V}
    {frame newFrame : PageNum} {key : K}, Apart outside top t₀ u₀ True t u →
    (¬ outside frame ∧ frame ≠ top) → (¬ outside newFrame ∧ newFrame ≠ top) →
    Agree (Apart outside top t₀ u₀ False) (insertEntryIntoParent cmp zeroKey fuel t frame newFrame key)
      (insertEntryIntoParent cmp zeroKey fuel u frame newFrame key)
  | 0, _, _, _, _, _, _, _, _ => .error _
  | fuel + 1, t, u, frame, newFrame, key, h, hframe, hnew => by
    rw [BplusTree.insertEntryIntoParent, BplusTree.insertEntryIntoParent, h.getPage hframe.1]
    refine (Agree.same _).bind ?_
    rintro node _ ⟨rfl, hnode⟩
    have hparent := h.parent_inside hnode hframe.1 hframe.2
    dsimp only
    rw [if_neg hparent.2, if_neg hparent.2, h.getInternal hparent.1]
    refine (Agree.same _).bind ?_
    rintro array _ ⟨rfl, harray⟩
    have hinner : Inner outside top array := h.children_inside harray hparent.1
    rw [h.sameHeader]
    by_cases hlt : array.length < t.fileHeader.internalMaxSize
    · rw [if_pos hlt, if_pos hlt]
      refine (Agree.same _).bind ?_
      rintro array' _ ⟨rfl, hrec⟩
      exact h.not_keep.hang cmp hparent False.elim hinner hnew hrec
    rw [if_neg hlt, if_neg hlt]
    -- a full parent is not `top`
    have hne : node.parent ≠ top := by
      intro heq
      have hbody := body_of_getInternal harray
      rw [heq, h.kept trivial] at hbody
      have := hroom _ hbody
      rw [← h.header] at this
      exact hlt this
    refine (h.splitInternal hparent.1 hne).bind ?_
    rintro ⟨newParent, t'⟩ ⟨_, u'⟩ ⟨rfl, hfree, hfreeTop, h'⟩
    dsimp only at hfree hfreeTop h' ⊢
    rw [h'.getInternal hfree.1]
    refine (Agree.same _).bind ?_
    rintro newArray _ ⟨rfl, hnewArray⟩
    refine (Agree.same _).bind ?_
    rintro firstKey _ ⟨rfl, -⟩
    have hrest : ∀ t u, Apart outside top t₀ u₀ True t u → Agree (Apart outside top t₀ u₀ False)
        (do
          let firstKey ← keyAt (← t.getInternal newParent) 0
          BplusTree.insertEntryIntoParent cmp zeroKey fuel t node.parent newParent firstKey)
        (do
          let firstKey ← keyAt (← u.getInternal newParent) 0
          BplusTree.insertEntryIntoParent cmp zeroKey fuel u node.parent newParent firstKey) := by
      intro t u h
      rw [h.getInternal hfree.1]
      refine (Agree.same _).bind ?_
      rintro array _ ⟨rfl, -⟩
      refine (Agree.same _).bind ?_
      rintro firstKey _ ⟨rfl, -⟩
      exact h.insertEntryIntoParent hroom ⟨hparent.1, hne⟩ ⟨hfree.1, hfreeTop⟩
    by_cases hgt : cmp key firstKey = .gt
    · rw [if_pos hgt, if_pos hgt]
      refine (Agree.same _).bind ?_
      rintro array' _ ⟨rfl, hrec⟩
      exact (h'.hang cmp hfree (fun _ => hfreeTop) (h'.children_inside hnewArray hfree.1) hnew hrec).bind
        hrest
    · rw [if_neg hgt, if_neg hgt, h'.getInternal hparent.1]
      refine (Agree.same _).bind ?_
      rintro oldArray _ ⟨rfl, holdArray⟩
      refine (Agree.same _).bind ?_
      rintro array' _ ⟨rfl, hrec⟩
      exact (h'.hang cmp hparent (fun _ => hne) (h'.children_inside holdArray hparent.1) hnew hrec).bind hrest

/-- The same answer, and trees that differ outside only. -/
def Answers (outside : PageNum → Prop) (top : PageNum) (t₀ u₀ : BplusTree K V)
    (a b : RC × BplusTree K V) : Prop :=
  a.1 = b.1 ∧ Apart outside top t₀ u₀ False a.2 b.2

/-- The insertion stays below the top if the top has room for one more child. -/
theorem insertEntryIntoLeafNode (hroom : HasRoom t₀ top) (h : Apart outside top t₀ u₀ True t u)
    (hp : ¬ outside p) (key : K) (value : V) :
    Agree (Answers outside top t₀ u₀) (t.insertEntryIntoLeafNode cmp zeroKey p key value)
      (u.insertEntryIntoLeafNode cmp zeroKey p key value) := by
  unfold BplusTree.insertEntryIntoLeafNode
  rw [h.getLeaf hp]
  refine (Agree.same _).bind ?_
  rintro ⟨next, array⟩ _ ⟨rfl, harray⟩
  dsimp only
  by_cases hexists : (leafLookup cmp array key).2 = true
  · rw [if_pos hexists, if_pos hexists]
    exact .ok ⟨rfl, h.not_keep⟩
  rw [if_neg hexists, if_neg hexists, h.sameHeader]
  by_cases hlt : array.length < t.fileHeader.leafMaxSize
  · rw [if_pos hlt, if_pos hlt]
    refine (Agree.same _).bind ?_
    rintro array' _ ⟨rfl, -⟩
    exact .ok ⟨rfl, h.not_keep.setLeaf hp False.elim _ _⟩
  rw [if_neg hlt, if_neg hlt]
  -- a full leaf is not `top`
  have hne : p ≠ top := by
    rintro rfl
    have hbody := body_of_getLeaf harray
    rw [h.kept trivial] at hbody
    have := hroom _ hbody
    rw [← h.header] at this
    exact hlt this
  refine (h.splitLeaf hp hne).bind ?_
  rintro ⟨newFrame, t'⟩ ⟨_, u'⟩ ⟨rfl, hfree, hfreeTop, h'⟩
  dsimp only at hfree hfreeTop h' ⊢
  rw [h'.getLeaf hp, h'.getLeaf hfree.1]
  refine (Agree.same _).bind ?_
  rintro ⟨_, leafArray⟩ _ ⟨rfl, -⟩
  refine (Agree.same _).bind ?_
  rintro ⟨_, newArray⟩ _ ⟨rfl, -⟩
  have hrest : ∀ t u, Apart outside top t₀ u₀ True t u → Agree (Answers outside top t₀ u₀)
      (do
        let leaf ← t.getLeaf newFrame
        let firstKey ← keyAt leaf.2 0
        let t ← BplusTree.insertEntryIntoParent cmp zeroKey t.pool.pageCount t p newFrame firstKey
        return (.success, t))
      (do
        let leaf ← u.getLeaf newFrame
        let firstKey ← keyAt leaf.2 0
        let u ← BplusTree.insertEntryIntoParent cmp zeroKey u.pool.pageCount u p newFrame firstKey
        return (.success, u)) := by
    intro t u h
    rw [h.getLeaf hfree.1, h.pageCount]
    refine (Agree.same _).bind ?_
    rintro ⟨_, newArray⟩ _ ⟨rfl, -⟩
    refine (Agree.same _).bind ?_
    rintro firstKey _ ⟨rfl, -⟩
    exact (h.insertEntryIntoParent cmp zeroKey hroom ⟨hp, hne⟩ ⟨hfree.1, hfreeTop⟩).bind
      fun _ _ h => .ok ⟨rfl, h⟩
  dsimp only
  by_cases hlt : (leafLookup cmp array key).1 < leafArray.length
  · rw [if_pos hlt, if_pos hlt]
    refine (Agree.same _).bind ?_
    rintro leafArray' _ ⟨rfl, -⟩
    exact hrest _ _ ((h'.setLeaf hfree.1 (fun _ => hfreeTop) _ _).setLeaf hp (fun _ => hne) _ _)
  · rw [if_neg hlt, if_neg hlt]
    refine (Agree.same _).bind ?_
    rintro newArray' _ ⟨rfl, -⟩
    exact hrest _ _ ((h'.setLeaf hfree.1 (fun _ => hfreeTop) _ _).setLeaf hp (fun _ => hne) _ _)

end Insertion

/-! ## Deletion -/

section Deletion

variable (cmp : K → K → Ordering)

/-- What is read at an index is an item. -/
theorem mem_of_itemAt {β : Type} {array : List (K × β)} {index : Nat} {item : K × β}
    (hget : itemAt array index = .ok item) : item ∈ array := by
  unfold itemAt at hget
  split at hget
  · rename_i hitem
    obtain rfl := Except.ok.inj hget
    exact List.mem_of_getElem? hitem
  · cases hget

/-- One item goes to the neighbour, with its child. -/
theorem moveOne (h : Apart outside top t₀ u₀ keep t u) (hq : ¬ outside q ∧ q ≠ top)
    (hp : ¬ outside p ∧ p ≠ top) (toEnd : Bool) :
    Agree (Apart outside top t₀ u₀ keep) (t.moveOne q p toEnd) (u.moveOne q p toEnd) := by
  -- both runs read the same nodes, as neither page is outside
  unfold BplusTree.moveOne
  rw [h.getPage hq.1, h.getPage hp.1]
  refine (Agree.same _).bind ?_
  rintro ⟨_, neighborBody⟩ _ ⟨rfl, hneighbor⟩
  refine (Agree.same _).bind ?_
  rintro ⟨_, body⟩ _ ⟨rfl, hnode⟩
  have hkeep {r : PageNum} (hr : r ≠ top) : keep → r ≠ top := fun _ => hr
  cases neighborBody with
  | leaf nextNeighbor neighborArray =>
    cases body with
    | leaf nextNode array =>
      -- a leaf: two pages are written
      cases toEnd
      all_goals
        dsimp only [if_true, Bool.false_eq_true, if_false]
        refine (Agree.same _).bind ?_
        rintro item _ ⟨rfl, -⟩
        refine (Agree.same _).bind ?_
        rintro rest _ ⟨rfl, -⟩
        exact .ok ((h.setLeaf hp.1 (hkeep hp.2) _ _).setLeaf hq.1 (hkeep hq.2) _ _)
    | internal array => exact .error _
  | internal neighborArray =>
    cases body with
    | leaf nextNode array => exact .error _
    | internal array =>
      have hneighborInner := h.closed.children q neighborArray hq.1 (body_of_getPage hneighbor)
      have hinner := h.closed.children p array hp.1 (body_of_getPage hnode)
      have hvalid := valid_of_getPage hnode
      -- an internal node: the child that moves gets a new parent, and it is inside as well
      cases toEnd
      all_goals
        dsimp only [if_true, Bool.false_eq_true, if_false]
        refine (Agree.same _).bind ?_
        rintro item _ ⟨rfl, hitem⟩
        have hitems : Inner outside top [item] := hneighborInner.subset fun x hx =>
          List.mem_singleton.mp hx ▸ mem_of_itemAt hitem
        refine (h.insertItems ⟨hp.1, hvalid⟩ (hkeep hp.2) hinner hitems _).bind fun t' u' h' => ?_
        refine (Agree.same _).bind ?_
        rintro rest _ ⟨rfl, hrest⟩
        exact .ok (h'.setInternal hq.1 (hkeep hq.2)
          (hneighborInner.subset (mem_recoverRemoveItem hrest).1))

/-- Another key, and the same child. -/
theorem inner_setKeyAt {array array' : List (K × PageNum)} {index : Nat} {key : K}
    (h : Inner outside top array) (hset : setKeyAt array index key = .ok array') :
    Inner outside top array' := by
  unfold setKeyAt at hset
  split at hset
  · rename_i item hitem
    obtain rfl := Except.ok.inj hset
    intro c hc
    obtain ⟨x, hx, rfl⟩ := List.mem_map.mp hc
    rcases List.mem_or_eq_of_mem_set hx with hx | rfl
    · exact h _ (List.mem_map_of_mem hx)
    · exact h _ (List.mem_map.mpr ⟨item, List.mem_of_getElem? hitem, rfl⟩)
  · cases hset

/-- Both neighbours and the parent are inner pages. -/
theorem redistribute (h : Apart outside top t₀ u₀ False t u) (hq : ¬ outside q ∧ q ≠ top)
    (hp : ¬ outside p ∧ p ≠ top) {parent : PageNum} (hparent : ¬ outside parent) (index : Nat) :
    Agree (Apart outside top t₀ u₀ False) (t.redistribute q p parent index)
      (u.redistribute q p parent index) := by
  unfold BplusTree.redistribute
  refine (h.moveOne hq hp _).bind fun t' u' h' => ?_
  rw [h'.getInternal hparent]
  refine (Agree.same _).bind ?_
  rintro array _ ⟨rfl, harray⟩
  have hinner := h'.children_inside harray hparent
  by_cases hzero : index = 0
  · rw [if_pos hzero, if_pos hzero, h'.firstKeyOf hq.1]
    refine (Agree.same _).bind ?_
    rintro key _ ⟨rfl, -⟩
    refine (Agree.same _).bind ?_
    rintro array' _ ⟨rfl, hset⟩
    exact .ok (h'.setInternal hparent False.elim (inner_setKeyAt hinner hset))
  · rw [if_neg hzero, if_neg hzero, h'.firstKeyOf hp.1]
    refine (Agree.same _).bind ?_
    rintro key _ ⟨rfl, -⟩
    refine (Agree.same _).bind ?_
    rintro array' _ ⟨rfl, hset⟩
    exact .ok (h'.setInternal hparent False.elim (inner_setKeyAt hinner hset))

/-- All items go to the left neighbour. -/
theorem moveTo (h : Apart outside top t₀ u₀ keep t u) {right left : PageNum}
    (hright : ¬ outside right ∧ right ≠ top) (hleft : ¬ outside left ∧ left ≠ top) :
    Agree (Apart outside top t₀ u₀ keep) (t.moveTo right left) (u.moveTo right left) := by
  unfold BplusTree.moveTo
  rw [h.getPage hright.1, h.getPage hleft.1]
  refine (Agree.same _).bind ?_
  rintro ⟨_, rightBody⟩ _ ⟨rfl, hrightNode⟩
  refine (Agree.same _).bind ?_
  rintro ⟨_, leftBody⟩ _ ⟨rfl, hleftNode⟩
  cases rightBody with
  | leaf nextRight rightArray =>
    cases leftBody with
    | leaf nextLeft leftArray =>
      exact .ok ((h.setLeaf hleft.1 (fun _ => hleft.2) _ _).setLeaf hright.1 (fun _ => hright.2) _ _)
    | internal leftArray => exact .error _
  | internal rightArray =>
    cases leftBody with
    | leaf nextLeft leftArray => exact .error _
    | internal leftArray =>
      have hrightInner := h.closed.children right rightArray hright.1 (body_of_getPage hrightNode)
      have hleftInner := h.closed.children left leftArray hleft.1 (body_of_getPage hleftNode)
      refine (h.insertItems ⟨hleft.1, valid_of_getPage hleftNode⟩ (fun _ => hleft.2) hleftInner
        hrightInner _).bind fun t' u' h' => .ok ?_
      exact h'.setInternal hright.1 (fun _ => hright.2) Inner.nil

/-- What a merge leaves: the parent has one item less. -/
def Merged (outside : PageNum → Prop) (top : PageNum) (t₀ u₀ : BplusTree K V) (keep : Prop)
    (array : List (K × PageNum)) (parent : PageNum) (t' u' : BplusTree K V) : Prop :=
  Apart outside top t₀ u₀ keep t' u' ∧
    (parent = top → ∃ array', array'.length + 1 = array.length ∧ t'.body top = some (.internal array'))

/-- The right neighbour is disposed of, and its slot taken out of the parent. -/
theorem coalesce (h : Apart outside top t₀ u₀ keep t u) (hq : ¬ outside q ∧ q ≠ top)
    (hp : ¬ outside p ∧ p ≠ top) {parent : PageNum} (hparent : ¬ outside parent)
    (hkeep : keep → parent ≠ top) {array : List (K × PageNum)}
    (harray : t.getInternal parent = .ok array) (index : Nat) :
    Agree (Merged outside top t₀ u₀ keep array parent) (t.coalesce q p parent index)
      (u.coalesce q p parent index) := by
  have hmerge {left right : PageNum} (hleft : ¬ outside left ∧ left ≠ top)
      (hright : ¬ outside right ∧ right ≠ top) (index : Nat) :
      Agree (Merged outside top t₀ u₀ keep array parent)
        (do
          let parentArray ← recoverRemoveItem (← t.getInternal parent) index
          let t := t.setBody parent (.internal parentArray)
          let t ← t.moveTo right left
          return t.disposePage right)
        (do
          let parentArray ← recoverRemoveItem (← u.getInternal parent) index
          let u := u.setBody parent (.internal parentArray)
          let u ← u.moveTo right left
          return u.disposePage right) := by
    rw [h.getInternal hparent, harray]
    refine (Agree.same _).bind ?_
    rintro _ _ ⟨rfl, harray'⟩
    obtain rfl := Except.ok.inj harray'
    refine (Agree.same _).bind ?_
    rintro array' _ ⟨rfl, hremove⟩
    obtain ⟨hsub, hlen⟩ := mem_recoverRemoveItem hremove
    have hset := h.setInternal hparent hkeep ((h.children_inside harray hparent).subset hsub)
    refine (hset.rebase.moveTo hright hleft).bind fun t' u' h' => .ok ⟨?_, fun heq => ?_⟩
    · exact hset.trans (h'.disposePage hright.1 hright.2)
    · refine ⟨array', hlen, ?_⟩
      have hbody := (h'.disposePage hright.1 hright.2).kept trivial
      rw [hbody, body_setBody, if_pos heq.symm, ← heq, body_of_getInternal harray]
      rfl
  unfold BplusTree.coalesce
  by_cases hzero : index = 0
  · rw [if_pos hzero]
    exact hmerge hp hq _
  · rw [if_neg hzero]
    exact hmerge hq hp _

/-- What is read at an index is a child. -/
theorem mem_of_valueAt {array : List (K × PageNum)} {index : Nat} {c : PageNum}
    (hget : valueAt array index = .ok c) : c ∈ array.map Prod.snd := by
  unfold valueAt at hget
  split at hget
  · rename_i item hitem
    obtain rfl := Except.ok.inj hget
    exact List.mem_map.mpr ⟨item, List.mem_of_getElem? hitem, rfl⟩
  · cases hget

/-- A node that a deletion leaves as it is: it is half full, or it is a root that need not go. -/
def Stays (t : BplusTree K V) (p : PageNum) : Prop :=
  ∀ b, t.body p = some b → t.fileHeader.minSize b.isLeaf ≤ b.size ∨
    t.parentOf p = some bpInvalidPageNum ∧ (1 < b.size ∨ b.isLeaf = true ∧ 0 < b.size)

/-- The top is left as it is, so that the rebalancing ends there. -/
theorem coalesceOrRedistribute_stays (h : Apart outside top t₀ u₀ False t u) (hstays : Stays t top)
    (fuel : Nat) : Agree (Apart outside top t₀ u₀ False) (coalesceOrRedistribute cmp fuel t top)
      (coalesceOrRedistribute cmp fuel u top) := by
  cases fuel with
  | zero => exact .error _
  | succ fuel =>
    rw [BplusTree.coalesceOrRedistribute, BplusTree.coalesceOrRedistribute, h.getPage h.closed.top_inside]
    refine (Agree.same _).bind ?_
    rintro node _ ⟨rfl, hnode⟩
    dsimp only
    rw [h.sameHeader]
    by_cases hhalf : node.body.size ≥ t.fileHeader.minSize node.body.isLeaf
    · rw [if_pos hhalf, if_pos hhalf]
      exact .ok h
    rw [if_neg hhalf, if_neg hhalf]
    -- the top has enough, or it is the root
    rcases hstays _ (body_of_getPage hnode) with hge | ⟨hroot, hsize⟩
    · exact absurd hge hhalf
    have hinvalid : node.parent = bpInvalidPageNum := by
      unfold BplusTree.getPage at hnode
      unfold parentOf at hroot
      split at hnode
      · rename_i hpage
        obtain rfl := Except.ok.inj hnode
        rw [hpage] at hroot
        exact Option.some.inj hroot
      · cases hnode
    rw [if_pos hinvalid, if_pos hinvalid]
    by_cases hone : node.body.size > 1
    · rw [if_pos hone, if_pos hone]
      exact .ok h
    rw [if_neg hone, if_neg hone]
    -- a root that is a leaf with items stays
    rcases hsize with hone' | ⟨hleaf, hpos⟩
    · exact absurd hone' hone
    unfold BplusTree.adjustRoot
    rw [h.getPage h.closed.top_inside, hnode]
    obtain ⟨parent, body⟩ := node
    cases body with
    | leaf next array =>
      have hpos : array.length > 0 := hpos
      show Agree _ (if array.length > 0 then _ else _) (if array.length > 0 then _ else _)
      rw [if_pos hpos, if_pos hpos]
      exact .ok h
    | internal array => cases hleaf

/-- The node stays if it loses an entry. -/
def HasSpare (t : BplusTree K V) (p : PageNum) : Prop :=
  ∀ b, t.body p = some b → t.fileHeader.minSize b.isLeaf < b.size ∨
    t.parentOf p = some bpInvalidPageNum ∧ (2 < b.size ∨ b.isLeaf = true ∧ 1 < b.size)

/-- `top` after it has lost one entry. -/
theorem stays_of_lost (h : Apart outside top t₀ u₀ keep t u) (hspare : HasSpare t₀ top)
    {b b' : NodeBody K V} (hb : t₀.body top = some b) (hb' : t.body top = some b') (hleaf : b'.isLeaf = b.isLeaf)
    (hsize : b'.size + 1 = b.size) : Stays t top := by
  intro b'' hb''
  obtain rfl := Option.some.inj (hb'.symm.trans hb'')
  rw [h.header, h.parentTop, hleaf]
  rcases hspare b hb with hlt | ⟨hroot, hlt | ⟨hleaf, hlt⟩⟩
  · exact Or.inl (by omega)
  · exact Or.inr ⟨hroot, Or.inl (by omega)⟩
  · exact Or.inr ⟨hroot, Or.inr ⟨hleaf, by omega⟩⟩

/-- Nothing above `top` loses an entry, because `top` stays.  Induction on the fuel; the frame is a page
    below `top` at every step but the last. -/
theorem coalesceOrRedistribute (hspare : HasSpare t₀ top) : ∀ {fuel : Nat} {t u : BplusTree K V}
    {frame : PageNum}, Apart outside top t₀ u₀ True t u → (¬ outside frame ∧ frame ≠ top) →
    Agree (Apart outside top t₀ u₀ False) (coalesceOrRedistribute cmp fuel t frame)
      (coalesceOrRedistribute cmp fuel u frame)
  | 0, _, _, _, _, _ => .error _
  | fuel + 1, t, u, frame, h, hframe => by
    rw [BplusTree.coalesceOrRedistribute, BplusTree.coalesceOrRedistribute, h.getPage hframe.1]
    refine (Agree.same _).bind ?_
    rintro node _ ⟨rfl, hnode⟩
    -- the parent is inside, or is the top itself
    have hparent := h.parent_inside hnode hframe.1 hframe.2
    dsimp only
    rw [h.sameHeader, h.getInternal hparent.1, h.lastKeyOf hframe.1]
    by_cases hhalf : node.body.size ≥ t.fileHeader.minSize node.body.isLeaf
    · rw [if_pos hhalf, if_pos hhalf]
      exact .ok h.not_keep
    rw [if_neg hhalf, if_neg hhalf, if_neg hparent.2, if_neg hparent.2]
    refine (Agree.same _).bind ?_
    rintro array _ ⟨rfl, harray⟩
    have hinner : Inner outside top array := h.children_inside harray hparent.1
    refine (Agree.same _).bind ?_
    rintro key _ ⟨rfl, -⟩
    refine (Agree.same _).bind ?_
    rintro child _ ⟨rfl, -⟩
    -- the assertion on the lookup fails in both runs or in none
    by_cases hchild : child ≠ frame
    · rw [if_pos hchild, if_pos hchild]
      exact .error _
    rw [if_neg hchild, if_neg hchild]
    refine (Agree.same _).bind ?_
    rintro neighbor _ ⟨rfl, hvalue⟩
    have hneighbor := hinner neighbor (mem_of_valueAt hvalue)
    rw [h.getPage hneighbor.1]
    refine (Agree.same _).bind ?_
    rintro neighborNode _ ⟨rfl, -⟩
    by_cases hbig : node.body.size + neighborNode.body.size > t.fileHeader.maxSize node.body.isLeaf
    · rw [if_pos hbig, if_pos hbig]
      exact h.not_keep.redistribute hneighbor hframe hparent.1 _
    rw [if_neg hbig, if_neg hbig]
    -- at the top the recursion ends: it has lost one child of those it had to spare
    by_cases htop : node.parent = top
    · refine (h.not_keep.coalesce hneighbor hframe hparent.1 False.elim harray _).bind ?_
      rintro t' u' ⟨h', hmerged⟩
      obtain ⟨array', hlen, hbody⟩ := hmerged htop
      have hold : t₀.body top = some (.internal array) := by
        rw [← h.kept trivial, ← htop]
        exact body_of_getInternal harray
      rw [htop]
      exact h'.coalesceOrRedistribute_stays cmp (h'.stays_of_lost hspare hold hbody rfl hlen) fuel
    -- below the top it goes on
    · refine (h.coalesce hneighbor hframe hparent.1 (fun _ => htop) harray _).bind ?_
      rintro t' u' ⟨h', -⟩
      exact h'.coalesceOrRedistribute hspare ⟨hparent.1, htop⟩

/-- The deletion stays below the top if the top can spare a child. -/
theorem deleteEntryInternal (hspare : HasSpare t₀ top) (h : Apart outside top t₀ u₀ True t u)
    (hp : ¬ outside p) (key : K) :
    Agree (Answers outside top t₀ u₀) (t.deleteEntryInternal cmp p key)
      (u.deleteEntryInternal cmp p key) := by
  unfold BplusTree.deleteEntryInternal
  rw [h.getLeaf hp]
  refine (Agree.same _).bind ?_
  rintro ⟨next, array⟩ _ ⟨rfl, harray⟩
  dsimp only
  by_cases hfound : (!(leafLookup cmp array key).2) = true
  · rw [if_pos hfound, if_pos hfound]
    exact .ok ⟨rfl, h.not_keep⟩
  rw [if_neg hfound, if_neg hfound]
  refine (Agree.same _).bind ?_
  rintro array' _ ⟨rfl, hremove⟩
  rw [fileHeader_setBody, fileHeader_setBody, h.sameHeader]
  have hset := h.not_keep.setLeaf hp False.elim next array'
  by_cases hhalf : array'.length ≥ t.fileHeader.minSize true
  · rw [if_pos hhalf, if_pos hhalf]
    exact .ok ⟨rfl, hset⟩
  rw [if_neg hhalf, if_neg hhalf, hset.pageCount]
  by_cases htop : p = top
  · subst htop
    have hbody := body_of_getLeaf harray
    have hold := hbody
    rw [h.kept trivial] at hold
    have hnew : (t.setBody p (.leaf next array')).body p = some (.leaf next array') := by
      rw [body_setBody, if_pos rfl, hbody]
      rfl
    have hstays := hset.stays_of_lost hspare hold hnew rfl (mem_recoverRemoveItem hremove).2
    exact (hset.coalesceOrRedistribute_stays cmp hstays _).bind fun _ _ h => .ok ⟨rfl, h⟩
  · have hkept := h.setLeaf hp (fun _ => htop) next array'
    exact (hkept.coalesceOrRedistribute cmp hspare ⟨hp, htop⟩).bind fun _ _ h => .ok ⟨rfl, h⟩

/-! ## The descent -/

/-- The way down stays inside. -/
theorem findLeafFrom (h : Apart outside top t₀ u₀ keep t u)
    (getter : List (K × PageNum) → Except Fault PageNum)
    (hgetter : ∀ array c, getter array = .ok c → c ∈ array.map Prod.snd) :
    ∀ {fuel : Nat} {p : PageNum},
    ¬ outside p → Agree (fun q q' => q = q' ∧ ¬ outside q) (t.findLeafFrom getter fuel p)
      (u.findLeafFrom getter fuel p)
  | 0, _, _ => .error _
  | fuel + 1, p, hp => by
    rw [BplusTree.findLeafFrom, BplusTree.findLeafFrom, h.getPage hp]
    refine (Agree.same _).bind ?_
    rintro ⟨_, body⟩ _ ⟨rfl, hnode⟩
    cases body with
    | leaf next array => exact .ok ⟨rfl, hp⟩
    | internal array =>
      refine (Agree.same _).bind ?_
      rintro c _ ⟨rfl, hc⟩
      have hinner := h.closed.children p array hp (body_of_getPage hnode)
      exact h.findLeafFrom getter hgetter (hinner c (hgetter array c hc)).1

end Deletion

end Apart
end Miniob.Index
