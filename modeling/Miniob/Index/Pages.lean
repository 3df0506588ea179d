/-
  What the node handlers do, stated once: the lookups on sorted items, and the effect of every
  page update on the two things a page says, its `body` and its `parentOf`.

  Later modules never unfold a handler or a page update.  An update of a body leaves every parent
  field alone and an update of a parent field leaves every body alone, which is what lets the
  levels of the tree be changed one at a time.
-/
import Mathlib.Data.List.TakeWhile
import Miniob.Common.Fence
import Miniob.Index.BplusTree

namespace Miniob.Index

open Miniob.Common Miniob.Storage

/-! ## Lookups on sorted items -/

section Lookup

variable {K V : Type} {cmp : K → K → Ordering} [Std.TransCmp cmp]

/-- A key strictly between item `z` and the next one is inserted right after `z`. -/
theorem insertPosition_eq {A B : List (K × PageNum)} {z : K × PageNum} {x : K}
    (hs : TailSorted cmp (A ++ z :: B)) (hA : A ≠ [] → cmp z.1 x = .lt)
    (hB : ∀ b ∈ B.head?, cmp x b.1 = .lt) :
    insertPosition cmp (A ++ z :: B) x = A.length + 1 := by
  have hgt : ∀ b ∈ B, cmp b.1 x = .gt := by
    cases B with
    | nil => nofun
    | cons b B =>
      have hb := hB b (by simp)
      intro c hc
      rcases List.mem_cons.mp hc with rfl | hc
      · exact gt_of_lt hb
      · have hbc := (List.pairwise_cons.mp hs.right).1 c hc
        exact gt_of_lt (Std.TransCmp.lt_trans hb hbc)
  have hpost : (∀ b ∈ B.head?, cmp b.1 x ≠ .lt) ∧ ∀ b ∈ B.tail, cmp b.1 x = .gt := by
    refine ⟨fun b hb => ?_, fun b hb => hgt b (List.mem_of_mem_tail hb)⟩
    rw [hgt b (List.mem_of_mem_head? hb)]
    nofun
  rw [insertPosition, if_neg (by simp)]
  cases A with
  | nil =>
    have hnil : ∀ c ∈ ([] : List (K × PageNum)), cmp c.1 x = .lt := nofun
    have := lowerBoundList_append (f := fun item : K × PageNum => cmp item.1 x) hnil hpost.1
      hpost.2
    rw [List.nil_append] at this
    rw [List.nil_append, List.tail_cons, this]
  | cons a A =>
    have hpre : ∀ c ∈ A ++ [z], cmp c.1 x = .lt := by
      intro c hc
      rcases List.mem_append.mp hc with hc | hc
      · exact Std.TransCmp.lt_trans (hs.left_lt c hc) (hA (by simp))
      · rw [List.mem_singleton.mp hc]
        exact hA (by simp)
    have := lowerBoundList_append (f := fun item : K × PageNum => cmp item.1 x) hpre hpost.1
      hpost.2
    rw [List.append_assoc, List.singleton_append] at this
    rw [List.cons_append, List.tail_cons, this]
    simp

/-- A key at or above item `z` and below the next one is looked up at `z`. -/
theorem internalLookup_eq {A B : List (K × PageNum)} {z : K × PageNum} {x : K}
    (hs : TailSorted cmp (A ++ z :: B)) (hA : A ≠ [] → cmp x z.1 ≠ .lt)
    (hB : ∀ b ∈ B.head?, cmp x b.1 = .lt) :
    internalLookup cmp (A ++ z :: B) x = A.length := by
  rw [internalLookup, if_neg (by simp)]
  by_cases hzx : A ≠ [] → cmp z.1 x = .lt
  · -- the search ends after `z`; the item there, if any, is above the key
    rw [insertPosition_eq hs hzx hB]
    cases B with
    | nil => simp
    | cons b B => simp [hB b (by simp)]
  · -- `z` itself is equal to the key
    obtain ⟨hAne, hnlt⟩ := Classical.not_imp.mp hzx
    obtain ⟨a, A, rfl⟩ := List.exists_cons_of_ne_nil hAne
    have hxz := hA hAne
    have hpre : ∀ c ∈ A, cmp c.1 x = .lt := fun c hc => lt_of_lt_of_ge (hs.left_lt c hc) hxz
    have hpos : insertPosition cmp (a :: A ++ z :: B) x = A.length + 1 := by
      rw [insertPosition, if_neg (by simp), List.cons_append, List.tail_cons]
      rw [lowerBoundList_append (f := fun item : K × PageNum => cmp item.1 x) hpre]
      · simpa using hnlt
      · exact fun c hc => gt_of_lt (lt_of_ge_of_lt hnlt (hs.lt_right hAne c hc))
    have hget : (a :: A ++ z :: B)[A.length + 1]? = some z := by
      simp
    simp only [hpos, hget, hxz, if_false, List.length_cons]

/-- A sorted leaf either holds the key, and the lookup finds it, or the key fits between two
    items, and the lookup returns that position. -/
theorem leafLookup_cases {es : List (K × V)} (hs : es.Pairwise fun a b => cmp a.1 b.1 = .lt)
    (x : K) :
    (∃ pre e post, es = pre ++ e :: post ∧ cmp e.1 x = .eq ∧
        leafLookup cmp es x = (pre.length, true)) ∨
    (∃ pre post, es = pre ++ post ∧ (∀ e ∈ pre, cmp e.1 x = .lt) ∧
        (∀ e ∈ post, cmp x e.1 = .lt) ∧ leafLookup cmp es x = (pre.length, false)) := by
  obtain ⟨pre, post, rfl, hpre, hpost⟩ : ∃ pre post, es = pre ++ post ∧
      (∀ e ∈ pre, cmp e.1 x = .lt) ∧ ∀ e ∈ post.head?, cmp e.1 x ≠ .lt := by
    refine ⟨es.takeWhile fun e => cmp e.1 x == .lt, es.dropWhile fun e => cmp e.1 x == .lt,
      List.takeWhile_append_dropWhile.symm, fun e he => ?_, fun e he => ?_⟩
    · simpa using List.mem_takeWhile_imp he
    · have := List.head?_dropWhile_not (fun e : K × V => cmp e.1 x == .lt) es
      rw [Option.mem_def.mp he] at this
      simpa using this
  cases post with
  | nil =>
    refine Or.inr ⟨pre, [], rfl, hpre, nofun, ?_⟩
    exact lowerBoundList_append (f := fun e : K × V => cmp e.1 x) hpre nofun nofun
  | cons e post =>
    have hge := hpost e (by simp)
    have hpc := List.pairwise_cons.mp (List.pairwise_append.mp hs).2.1
    have hgt : ∀ c ∈ post, cmp c.1 x = .gt := fun c hc =>
      gt_of_lt (lt_of_ge_of_lt hge (hpc.1 c hc))
    have hl := lowerBoundList_append (f := fun e : K × V => cmp e.1 x) hpre hpost hgt
    rcases hc : cmp e.1 x with _ | _ | _
    · exact absurd hc hge
    · refine Or.inl ⟨pre, e, post, rfl, hc, ?_⟩
      rw [leafLookup, hl]
      simp [hc]
    · refine Or.inr ⟨pre, e :: post, rfl, hpre, fun c hc' => ?_, ?_⟩
      · rcases List.mem_cons.mp hc' with rfl | hc'
        · exact Std.OrientedCmp.gt_iff_lt.mp hc
        · exact Std.OrientedCmp.gt_iff_lt.mp (hgt c hc')
      · rw [leafLookup, hl]
        simp [hc]

end Lookup

/-! ## Items of a node at a known position -/

section Items

variable {K β : Type} {A B : List (K × β)} {z : K × β}

theorem keyAt_zero : keyAt (z :: B) 0 = .ok z.1 := rfl

theorem valueAt_append {A B : List (K × PageNum)} {z : K × PageNum} :
    valueAt (A ++ z :: B) A.length = .ok z.2 := by simp [valueAt]

theorem setKeyAt_append (key : K) :
    setKeyAt (A ++ z :: B) A.length key = .ok (A ++ (key, z.2) :: B) := by simp [setKeyAt]

theorem itemAt_zero : itemAt (z :: B) 0 = .ok z := rfl

theorem itemAt_append_last : itemAt (A ++ [z]) ((A ++ [z]).length - 1) = .ok z := by simp [itemAt]

theorem keyAt_append_last : keyAt (A ++ [z]) ((A ++ [z]).length - 1) = .ok z.1 := by simp [keyAt]

/-- Items are inserted behind the first `A.length` ones. -/
theorem recoverInsertItems_append (C items : List (K × β)) :
    recoverInsertItems (A ++ C) A.length items = .ok (A ++ items ++ C) := by
  simp [recoverInsertItems]

theorem recoverInsertItems_end (items : List (K × β)) :
    recoverInsertItems A A.length items = .ok (A ++ items) := by simp [recoverInsertItems]

theorem recoverInsertItems_zero (items : List (K × β)) :
    recoverInsertItems A 0 items = .ok (items ++ A) := by simp [recoverInsertItems]

/-- The item behind the first `A.length` ones is removed. -/
theorem recoverRemoveItem_append :
    recoverRemoveItem (A ++ z :: B) A.length = .ok (A ++ B) := by simp [recoverRemoveItem]

theorem recoverRemoveItem_zero : recoverRemoveItem (z :: B) 0 = .ok B := by
  simp [recoverRemoveItem]

theorem recoverRemoveItem_last :
    recoverRemoveItem (A ++ [z]) ((A ++ [z]).length - 1) = .ok A := by simp [recoverRemoveItem]

end Items

/-! ## Bodies and parents of pages -/

namespace BplusTree

variable {K V : Type}

/-- What kind of node a page holds, with its items. -/
def body (t : BplusTree K V) (p : PageNum) : Option (NodeBody K V) :=
  (t.pool.page p).map IndexNode.body

/-- The parent field of a page's node. -/
def parentOf (t : BplusTree K V) (p : PageNum) : Option PageNum :=
  (t.pool.page p).map IndexNode.parent

section Views

variable {t : BplusTree K V} {p q : PageNum} {b : NodeBody K V}

/-- A page that is there is read, with its parent and its body. -/
theorem getPage_eq (hb : t.body p = some b) (hq : t.parentOf p = some q) :
    t.getPage p = .ok ⟨q, b⟩ := by
  unfold body at hb
  unfold parentOf at hq
  obtain ⟨node, hn, rfl⟩ := Option.map_eq_some_iff.mp hb
  rw [hn, Option.map_some, Option.some.injEq] at hq
  subst hq
  simp only [getPage, hn]

/-- An internal node is read as one. -/
theorem getInternal_eq {array : List (K × PageNum)} (hb : t.body p = some (.internal array)) :
    t.getInternal p = .ok array := by
  obtain ⟨⟨_, _⟩, hn, rfl⟩ := Option.map_eq_some_iff.mp hb
  simp only [getInternal, hn]

/-- A leaf is read as one, with the page of the next leaf. -/
theorem getLeaf_eq {next : PageNum} {array : List (K × V)}
    (hb : t.body p = some (.leaf next array)) : t.getLeaf p = .ok (next, array) := by
  obtain ⟨⟨_, _⟩, hn, rfl⟩ := Option.map_eq_some_iff.mp hb
  simp only [getLeaf, hn]

/-- What is read is the body of the page. -/
theorem body_of_getPage {node : IndexNode K V} (hget : t.getPage p = .ok node) :
    t.body p = some node.body := by
  unfold getPage at hget
  unfold body
  split at hget
  · rename_i hpage
    obtain rfl := Except.ok.inj hget
    rw [hpage]
    rfl
  · cases hget

/-- A page that is read as an internal node is one. -/
theorem body_of_getInternal {array : List (K × PageNum)} (hget : t.getInternal p = .ok array) :
    t.body p = some (.internal array) := by
  unfold getInternal at hget
  unfold body
  split at hget
  · rename_i hpage
    obtain rfl := Except.ok.inj hget
    rw [hpage]
    rfl
  · cases hget
  · cases hget

/-- A page that is read as a leaf is one. -/
theorem body_of_getLeaf {next : PageNum} {array : List (K × V)} (hget : t.getLeaf p = .ok (next, array)) :
    t.body p = some (.leaf next array) := by
  unfold getLeaf at hget
  unfold body
  split at hget
  · rename_i hpage
    obtain ⟨rfl, rfl⟩ := Prod.mk.inj (Except.ok.inj hget)
    rw [hpage]
    rfl
  · cases hget
  · cases hget

/-- The invalid page number is never read. -/
theorem valid_of_getPage {node : IndexNode K V} (hget : t.getPage p = .ok node) :
    p ≠ bpInvalidPageNum := by
  unfold getPage at hget
  split at hget
  · rename_i hpage
    exact PagePool.ne_invalid (by rw [hpage]; rfl)
  · cases hget

/-- Each page that is there has a parent number. -/
theorem parentOf_isSome : (t.parentOf p).isSome = (t.body p).isSome := by
  simp [parentOf, body]

theorem page_isSome : (t.pool.page p).isSome = (t.body p).isSome := by
  simp [body]

/-- The parent of a page that is there; it is invalid at the root. -/
theorem exists_parentOf (hb : t.body p = some b) : ∃ q, t.parentOf p = some q := by
  rw [← Option.isSome_iff_exists, parentOf_isSome, hb]
  rfl

/-- No page lies under the invalid page number. -/
theorem ne_invalid_of_body (hb : t.body p = some b) : p ≠ bpInvalidPageNum :=
  PagePool.ne_invalid (by rw [page_isSome, hb]; rfl)

/-- A page update in place: `setBody`, `setParent` and the header update. -/
theorem body_setBody (t : BplusTree K V) (p x : PageNum) (b : NodeBody K V) :
    (t.setBody p b).body x = if x = p then (t.body x).map fun _ => b else t.body x := by
  unfold body setBody
  rw [PagePool.page_modifyPage]
  split <;> simp [Function.comp_def]

/-- Writing a body makes no page, and removes none. -/
@[simp] theorem isSome_body_setBody (t : BplusTree K V) (p x : PageNum) (b : NodeBody K V) :
    ((t.setBody p b).body x).isSome = (t.body x).isSome := by
  rw [body_setBody]
  split <;> simp

/-- Writing a body leaves the parents. -/
@[simp] theorem parentOf_setBody (t : BplusTree K V) (p x : PageNum) (b : NodeBody K V) :
    (t.setBody p b).parentOf x = t.parentOf x := by
  unfold parentOf setBody
  rw [PagePool.page_modifyPage]
  split <;> simp [Function.comp_def]

/-- Writing a parent leaves the bodies. -/
@[simp] theorem body_setParent (t : BplusTree K V) (p q x : PageNum) :
    (t.setParent p q).body x = t.body x := by
  unfold body setParent
  rw [PagePool.page_modifyPage]
  split <;> simp [Function.comp_def]

/-- Only the parent of the one page is written. -/
theorem parentOf_setParent (t : BplusTree K V) (p q x : PageNum) :
    (t.setParent p q).parentOf x
      = if x = p then (t.parentOf x).map fun _ => q else t.parentOf x := by
  unfold parentOf setParent
  rw [PagePool.page_modifyPage]
  split <;> simp [Function.comp_def]

@[simp] theorem body_updateRootPageNum (t : BplusTree K V) (r x : PageNum) :
    (t.updateRootPageNum r).body x = t.body x := rfl

@[simp] theorem parentOf_updateRootPageNum (t : BplusTree K V) (r x : PageNum) :
    (t.updateRootPageNum r).parentOf x = t.parentOf x := rfl

/-- Only the disposed page is gone. -/
theorem body_disposePage (t : BplusTree K V) (p x : PageNum) :
    (t.disposePage p).body x = if x = p then none else t.body x := by
  unfold body disposePage
  rw [PagePool.page_disposePage]
  split <;> rfl

/-- The disposed page has no parent any more, the others keep theirs. -/
theorem parentOf_disposePage (t : BplusTree K V) (p x : PageNum) :
    (t.disposePage p).parentOf x = if x = p then none else t.parentOf x := by
  unfold parentOf disposePage
  rw [PagePool.page_disposePage]
  split <;> rfl

/-- There is nothing at the page that is allocated next. -/
theorem body_freePage (t : BplusTree K V) : t.body t.pool.freePage = none := by
  simp [body, t.pool.freePage_spec.2.2]

/-- So it is none of the pages of the tree. -/
theorem ne_freePage (hb : t.body p = some b) : p ≠ t.pool.freePage := by
  rintro rfl
  rw [body_freePage] at hb
  cases hb

@[simp] theorem allocateNode_fst (t : BplusTree K V) (b : NodeBody K V) :
    (t.allocateNode b).1 = t.pool.freePage := rfl

/-- The new node has its body, and the other pages are as before. -/
theorem body_allocateNode (t : BplusTree K V) (b : NodeBody K V) (x : PageNum) :
    (t.allocateNode b).2.body x = if x = t.pool.freePage then some b else t.body x := by
  simp only [body, allocateNode, PagePool.page_allocatePage]
  split <;> rfl

/-- A new node has no parent yet. -/
theorem parentOf_allocateNode (t : BplusTree K V) (b : NodeBody K V) (x : PageNum) :
    (t.allocateNode b).2.parentOf x
      = if x = t.pool.freePage then some bpInvalidPageNum else t.parentOf x := by
  simp only [parentOf, allocateNode, PagePool.page_allocatePage]
  split <;> rfl

end Views

/-! ## Equal trees -/

/-- Two trees with the same header and the same pages are the same. -/
theorem ext_pages {t u : BplusTree K V} (hheader : u.fileHeader = t.fileHeader)
    (hcount : u.pool.pageCount = t.pool.pageCount) (hpage : ∀ q, u.pool.page q = t.pool.page q) :
    u = t := by
  obtain ⟨header, ⟨page, count, _, _⟩⟩ := t
  obtain ⟨header', ⟨page', count', _, _⟩⟩ := u
  obtain rfl : header' = header := hheader
  obtain rfl : count' = count := hcount
  obtain rfl : page' = page := funext hpage
  rfl

/-! ## The file header -/

section Header

variable (t : BplusTree K V) (p q : PageNum) (b : NodeBody K V)

@[simp] theorem fileHeader_setBody : (t.setBody p b).fileHeader = t.fileHeader := rfl

@[simp] theorem fileHeader_setParent : (t.setParent p q).fileHeader = t.fileHeader := rfl

@[simp] theorem fileHeader_disposePage : (t.disposePage p).fileHeader = t.fileHeader := rfl

@[simp] theorem fileHeader_allocateNode : (t.allocateNode b).2.fileHeader = t.fileHeader := rfl

@[simp] theorem fileHeader_updateRootPageNum :
    (t.updateRootPageNum p).fileHeader = { t.fileHeader with rootPage := p } := rfl

end Header

/-! ## Giving children a parent -/

/-- Children `cs` get parent `q`, without the check that their pages exist. -/
def setParents (t : BplusTree K V) (q : PageNum) (cs : List PageNum) : BplusTree K V :=
  cs.foldl (fun t c => t.setParent c q) t

/-- Handing children over to a parent leaves what is in them. -/
@[simp] theorem body_setParents (q x : PageNum) :
    ∀ (cs : List PageNum) (t : BplusTree K V), (t.setParents q cs).body x = t.body x
  | [], _ => rfl
  | c :: cs, t => by
    rw [show t.setParents q (c :: cs) = (t.setParent c q).setParents q cs from rfl,
      body_setParents q x cs, body_setParent]

@[simp] theorem fileHeader_setParents (q : PageNum) :
    ∀ (cs : List PageNum) (t : BplusTree K V), (t.setParents q cs).fileHeader = t.fileHeader
  | [], _ => rfl
  | c :: cs, t => by
    rw [show t.setParents q (c :: cs) = (t.setParent c q).setParents q cs from rfl,
      fileHeader_setParents q cs, fileHeader_setParent]

/-- Each of the children has the new parent, and no other page. -/
theorem parentOf_setParents (q x : PageNum) :
    ∀ (cs : List PageNum) (t : BplusTree K V), (t.setParents q cs).parentOf x
      = if x ∈ cs then (t.parentOf x).map fun _ => q else t.parentOf x
  | [], _ => by simp [setParents]
  | c :: cs, t => by
    rw [show t.setParents q (c :: cs) = (t.setParent c q).setParents q cs from rfl,
      parentOf_setParents q x cs, parentOf_setParent]
    by_cases hc : x = c <;> by_cases hcs : x ∈ cs <;> simp [hc, hcs, Function.comp_def]

/-- The parent of a page that is there can be set. -/
theorem setParentPageNum_eq {t : BplusTree K V} {p : PageNum} (q : PageNum)
    (hp : (t.body p).isSome) : t.setParentPageNum p q = .ok (t.setParent p q) := by
  obtain ⟨b, hb⟩ := Option.isSome_iff_exists.mp hp
  obtain ⟨q', hq'⟩ := exists_parentOf hb
  rw [setParentPageNum, getPage_eq hb hq']
  rfl

/-- If all children are there, all of them get the new parent. -/
theorem setChildrenParent_eq (q : PageNum) :
    ∀ (cs : List PageNum) (t : BplusTree K V), (∀ c ∈ cs, (t.body c).isSome) →
      t.setChildrenParent q cs = .ok (t.setParents q cs)
  | [], _, _ => rfl
  | c :: cs, t, h => by
    rw [setChildrenParent, setParentPageNum_eq q (h c (by simp))]
    exact setChildrenParent_eq q cs _ fun c' hc' => by simp [h c' (by simp [hc'])]

/-- `insert_items` succeeds when the index is inside the node and the children exist. -/
theorem insertItems_eq {t : BplusTree K V} {q : PageNum} {array items array' : List (K × PageNum)}
    {index : Nat} (h : recoverInsertItems array index items = .ok array')
    (hc : ∀ c ∈ items.map Prod.snd, (t.body c).isSome) :
    t.insertItems q array index items
      = .ok ((t.setBody q (.internal array')).setParents q (items.map Prod.snd)) := by
  rw [insertItems, h]
  refine setChildrenParent_eq q _ _ fun c hc' => ?_
  rw [body_setBody]
  split <;> simp [hc c hc']

end BplusTree
end Miniob.Index
