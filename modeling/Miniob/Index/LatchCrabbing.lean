/-
  Which latches a descent gives back, and that the rest of the operation does without them
  (`find_leaf_internal` and `crabing_protocal_fetch_page` in src/observer/storage/index/bplus_tree.cpp, with
  `LatchMemo` in latch_memo.cpp).

  * The memo lists what an operation has pinned and latched, in this order.  `release_to` gives back
    everything before a point.
  * `Fetched` are the moments of a descent: the pages above, the page that was fetched last, and the memo.
  * The pages above that are no longer latched are above a page that is safe.  The tree below that page is
    closed but for the parent field of its top, so Locality applies.

  Left out: the pages to be disposed of when the memo is released.
-/
import Miniob.Index.LocalChange
import Miniob.Index.Run

namespace Miniob.Index

open Miniob.Common Miniob.Storage BplusTree

/-! ## The latch memo -/

inductive BplusTreeOperationType where
  | read
  | insert
  | delete
  deriving DecidableEq

inductive LatchMemoType where
  | shared
  | exclusive
  | pin
  deriving DecidableEq

/-- `LatchMemoItem`: the root lock, or the frame of a page. -/
inductive LatchMemoItem where
  | lock (type : LatchMemoType)
  | frame (type : LatchMemoType) (pageNum : PageNum)
  deriving DecidableEq

/-- The type of an operation's latches. -/
def BplusTreeOperationType.latchType : BplusTreeOperationType → LatchMemoType
  | .read => .shared
  | .insert => .exclusive
  | .delete => .exclusive

/-- `LatchMemo::release_to`, on the items. -/
def releaseTo (point : Nat) (items : List LatchMemoItem) : List LatchMemoItem := items.drop point

variable {K V : Type}

/-- `IndexNodeHandler::is_safe`. -/
def IndexNode.isSafe (header : IndexFileHeader) (node : IndexNode K V) (op : BplusTreeOperationType)
    (isRootNode : Bool) : Bool :=
  match op with
  | .read => true
  | .insert => node.body.size < header.maxSize node.body.isLeaf
  | .delete =>
    if isRootNode then
      if node.body.isLeaf then node.body.size > 1 else node.body.size > 2
    else node.body.size > header.minSize node.body.isLeaf

namespace BplusTree

variable (t : BplusTree K V) (op : BplusTreeOperationType)

/-- `crabing_protocal_fetch_page`. -/
def crabingProtocalFetchPage (pageNum : PageNum) (isRootNode : Bool) (items : List LatchMemoItem) :
    Except Fault (List LatchMemoItem) := do
  let memoPoint := items.length
  let node ← t.getPage pageNum
  let items := items ++ [.frame .pin pageNum, .frame op.latchType pageNum]
  return if node.isSafe t.fileHeader op isRootNode then releaseTo memoPoint items else items

/-- The loop of `find_leaf_internal` with its memo. -/
def crabFrom (childPageGetter : List (K × PageNum) → Except Fault PageNum) :
    Nat → PageNum → List LatchMemoItem → Except Fault (PageNum × List LatchMemoItem)
  | 0, _, _ => .error .fuel
  | fuel + 1, p, items => do
    match (← t.getPage p).body with
    | .leaf .. => return (p, items)
    | .internal array =>
      let nextPageId ← childPageGetter array
      let items ← t.crabingProtocalFetchPage op nextPageId false items
      crabFrom childPageGetter fuel nextPageId items

/-- `find_leaf_internal` on a tree that is not empty. -/
def crab (childPageGetter : List (K × PageNum) → Except Fault PageNum) :
    Except Fault (PageNum × List LatchMemoItem) := do
  let items ← t.crabingProtocalFetchPage op t.fileHeader.rootPage true [.lock op.latchType]
  t.crabFrom op childPageGetter t.pool.pageCount t.fileHeader.rootPage items

end BplusTree

variable (cmp : K → K → Ordering)

/-- The child that a search for the key goes to. -/
def childOf (key : K) (array : List (K × PageNum)) : Except Fault PageNum :=
  valueAt array (internalLookup cmp array key)

/-- The moments of a descent: the pages above, the page that has been fetched, and the memo. -/
inductive Fetched (t : BplusTree K V) (op : BplusTreeOperationType) (key : K) :
    List PageNum → PageNum → List LatchMemoItem → Prop where
  | root {items : List LatchMemoItem} :
      t.crabingProtocalFetchPage op t.fileHeader.rootPage true [.lock op.latchType] = .ok items →
      Fetched t op key [] t.fileHeader.rootPage items
  | child {above : List PageNum} {p c : PageNum} {items items' : List LatchMemoItem}
      {array : List (K × PageNum)} : Fetched t op key above p items → t.body p = some (.internal array) →
      childOf cmp key array = .ok c → t.crabingProtocalFetchPage op c false items = .ok items' →
      Fetched t op key (above ++ [p]) c items'

/-- The pages above whose latches have been given back. -/
def released (op : BplusTreeOperationType) (above : List PageNum) (items : List LatchMemoItem) :
    List PageNum :=
  above.filter fun q => .frame op.latchType q ∉ items

section Descent

variable {cmp} {t : BplusTree K V} {op : BplusTreeOperationType} {key : K} {above : List PageNum}
  {p q : PageNum} {items : List LatchMemoItem}

/-- The descent with its memo is a descent. -/
theorem crabFrom_fetched : ∀ {fuel : Nat} {above : List PageNum} {p : PageNum}
    {items items' : List LatchMemoItem}, Fetched cmp t op key above p items →
    t.crabFrom op (childOf cmp key) fuel p items = .ok (q, items') →
    t.findLeafFrom (childOf cmp key) fuel p = .ok q ∧ ∃ above', Fetched cmp t op key above' q items'
  | 0, _, _, _, _, _, h => by cases h
  | fuel + 1, above, p, items, items', hf, h => by
    rw [crabFrom] at h
    rw [BplusTree.findLeafFrom]
    obtain ⟨node, hnode, h⟩ := ok_of_bind h
    rw [hnode]
    have hbody := body_of_getPage hnode
    obtain ⟨parent, body⟩ := node
    cases body with
    | leaf next array =>
      obtain ⟨rfl, rfl⟩ := Prod.mk.inj (Except.ok.inj h)
      exact ⟨rfl, above, hf⟩
    | internal array =>
      obtain ⟨c, hc, h⟩ := ok_of_bind h
      obtain ⟨items₁, hitems, h⟩ := ok_of_bind h
      show (childOf cmp key array >>= _) = _ ∧ _
      rw [hc]
      exact crabFrom_fetched (hf.child hbody hc hitems) h

theorem crab_fetched (h : t.crab op (childOf cmp key) = .ok (q, items)) :
    t.findLeafFrom (childOf cmp key) t.pool.pageCount t.fileHeader.rootPage = .ok q ∧
      ∃ above, Fetched cmp t op key above q items := by
  obtain ⟨items₁, hitems, h⟩ := ok_of_bind h
  exact crabFrom_fetched (.root hitems) h

/-- A fetch leaves the page latched; a safe page is the first one that is. -/
theorem fetchPage_items {isRootNode : Bool} {items' : List LatchMemoItem}
    (h : t.crabingProtocalFetchPage op p isRootNode items = .ok items') :
    ∃ node, t.getPage p = .ok node ∧
      (node.isSafe t.fileHeader op isRootNode = true ∧
          items' = [.frame .pin p, .frame op.latchType p] ∨
        items' = items ++ [.frame .pin p, .frame op.latchType p]) := by
  obtain ⟨node, hnode, h⟩ := ok_of_bind h
  refine ⟨node, hnode, ?_⟩
  have h : (if node.isSafe t.fileHeader op isRootNode then
      releaseTo items.length (items ++ [.frame .pin p, .frame op.latchType p])
    else items ++ [.frame .pin p, .frame op.latchType p]) = items' := Except.ok.inj h
  by_cases hsafe : node.isSafe t.fileHeader op isRootNode = true
  · rw [if_pos hsafe] at h
    refine Or.inl ⟨hsafe, ?_⟩
    rw [← h, releaseTo, List.drop_left]
  · rw [if_neg hsafe] at h
    exact Or.inr h.symm

/-- Either nothing has been released, or all that has been is above a page that is safe. -/
theorem Fetched.safe (h : Fetched cmp t op key above p items) :
    (.lock op.latchType ∈ items ∧ ∀ q ∈ above ++ [p], .frame op.latchType q ∈ items) ∨
      ∃ A a B node, above ++ [p] = A ++ a :: B ∧ t.getPage a = .ok node ∧
        node.isSafe t.fileHeader op A.isEmpty = true ∧
        ∀ q ∈ a :: B, .frame op.latchType q ∈ items := by
  have hlatched (c : PageNum) : LatchMemoItem.frame op.latchType c ∈
      [LatchMemoItem.frame .pin c, .frame op.latchType c] :=
    List.mem_cons_of_mem _ (List.mem_singleton_self _)
  induction h with
  | root hitems =>
    obtain ⟨node, hnode, ⟨hsafe, rfl⟩ | rfl⟩ := fetchPage_items hitems
    · refine Or.inr ⟨[], _, [], node, rfl, hnode, hsafe, fun q hq => ?_⟩
      obtain rfl := List.mem_singleton.mp hq
      exact hlatched _
    · refine Or.inl ⟨List.mem_cons_self, fun q hq => ?_⟩
      obtain rfl := List.mem_singleton.mp hq
      exact List.mem_append_right _ (hlatched _)
  | @child above p c items items' array _ _ _ hitems ih =>
    obtain ⟨node, hnode, ⟨hsafe, rfl⟩ | rfl⟩ := fetchPage_items hitems
    · refine Or.inr ⟨above ++ [p], c, [], node, rfl, hnode, ?_, fun q hq => ?_⟩
      · rw [List.isEmpty_eq_false_iff.mpr (List.append_ne_nil_of_right_ne_nil _ (List.cons_ne_nil _ _))]
        exact hsafe
      · obtain rfl := List.mem_singleton.mp hq
        exact hlatched _
    · rcases ih with ⟨hlock, hall⟩ | ⟨A, a, B, node', hpath, hget, hsafe, hall⟩
      · refine Or.inl ⟨List.mem_append_left _ hlock, fun q hq => ?_⟩
        rcases List.mem_append.mp hq with hq | hq
        · exact List.mem_append_left _ (hall q hq)
        · obtain rfl := List.mem_singleton.mp hq
          exact List.mem_append_right _ (hlatched _)
      · refine Or.inr ⟨A, a, B ++ [c], node', ?_, hget, hsafe, fun q hq => ?_⟩
        · rw [hpath, List.append_assoc]
          rfl
        · rw [← List.cons_append] at hq
          rcases List.mem_append.mp hq with hq | hq
          · exact List.mem_append_left _ (hall q hq)
          · obtain rfl := List.mem_singleton.mp hq
            exact List.mem_append_right _ (hlatched _)

theorem Below.trans {r : PageNum} {n m : Nat} (h : Below t p n q) (h' : Below t q m r) :
    Below t p (n + m) r := by
  induction h with
  | here p => exact (Nat.zero_add m).symm ▸ h'
  | @down p c q n hc _ ih =>
    rw [Nat.add_right_comm]
    exact .down hc (ih h')

theorem isChild_of_childOf {array : List (K × PageNum)} {c : PageNum}
    (hbody : t.body p = some (.internal array)) (hc : childOf cmp key array = .ok c) : IsChild t p c :=
  ⟨array, hbody, Apart.mem_of_valueAt hc⟩

/-- The pages of a descent stand one below the other. -/
theorem Fetched.path (h : Fetched cmp t op key above p items) : ∀ A a B, above ++ [p] = A ++ a :: B →
    Below t t.fileHeader.rootPage A.length a ∧ Below t a B.length p ∧
      ∀ q ∈ A, ∃ n m, Below t t.fileHeader.rootPage n q ∧ Below t q (m + 1) a := by
  induction h with
  | root _ =>
    intro A a B heq
    obtain ⟨rfl, rfl, rfl⟩ : A = [] ∧ a = t.fileHeader.rootPage ∧ B = [] :=
      append_cons_eq_singleton heq.symm
    exact ⟨.here _, .here _, fun _ hq => absurd hq List.not_mem_nil⟩
  | @child above p c items items' array hf hbody hc _ ih =>
    intro A a B heq
    have hchild : IsChild t p c := isChild_of_childOf hbody hc
    rcases List.eq_nil_or_concat' B with rfl | ⟨B', b, rfl⟩
    · obtain ⟨rfl, hac⟩ := List.append_inj' heq rfl
      obtain rfl := (List.cons.inj hac).1
      obtain ⟨hroot, -, hA⟩ := ih above p [] rfl
      refine ⟨?_, .here _, fun q hq => ?_⟩
      · rw [List.length_append, List.length_singleton]
        exact hroot.snoc hchild
      · rcases List.mem_append.mp hq with hq | hq
        · obtain ⟨n, m, hn, hm⟩ := hA q hq
          exact ⟨n, m + 1, hn, hm.snoc hchild⟩
        · obtain rfl := List.mem_singleton.mp hq
          exact ⟨_, 0, hroot, .down hchild (.here _)⟩
    · rw [← List.cons_append, ← List.append_assoc] at heq
      obtain ⟨hpath, hbc⟩ := List.append_inj' heq rfl
      obtain rfl := (List.cons.inj hbc).1
      obtain ⟨hroot, hbelow, hA⟩ := ih A a B' hpath
      refine ⟨hroot, ?_, hA⟩
      rw [List.length_append, List.length_singleton]
      exact hbelow.snoc hchild

theorem below_leaf : ∀ {fuel : Nat} {p : PageNum}, t.findLeafFrom (childOf cmp key) fuel p = .ok q →
    ∃ n next array, Below t p n q ∧ t.body q = some (.leaf next array)
  | 0, _, h => by cases h
  | fuel + 1, p, h => by
    rw [BplusTree.findLeafFrom] at h
    obtain ⟨node, hnode, h⟩ := ok_of_bind h
    have hbody := body_of_getPage hnode
    obtain ⟨parent, body⟩ := node
    cases body with
    | leaf next array =>
      obtain rfl := Except.ok.inj h
      exact ⟨0, next, array, .here p, hbody⟩
    | internal array =>
      obtain ⟨c, hc, h⟩ := ok_of_bind h
      obtain ⟨n, next, array', hn, hleaf⟩ := below_leaf h
      exact ⟨n + 1, next, array', .down (isChild_of_childOf hbody hc) hn, hleaf⟩

end Descent

/-! ## The rest of the operation -/

namespace BplusTree

/-- Some pages hold something else. -/
def overwrite (t : BplusTree K V) (pages : List PageNum) (other : PageNum → IndexNode K V) :
    BplusTree K V :=
  { t with
    pool :=
      { t.pool with
        page := fun q => if q ∈ pages then (t.pool.page q).map fun _ => other q else t.pool.page q
        pageRange := by
          intro q a h
          split at h
          · obtain ⟨b, hb, -⟩ := Option.map_eq_some_iff.mp h
            exact t.pool.pageRange q b hb
          · exact t.pool.pageRange q a h } }

theorem page_overwrite (t : BplusTree K V) (pages : List PageNum) (other : PageNum → IndexNode K V)
    (q : PageNum) : (t.overwrite pages other).pool.page q
      = if q ∈ pages then (t.pool.page q).map fun _ => other q else t.pool.page q := rfl

@[simp] theorem overwrite_nil (t : BplusTree K V) (other : PageNum → IndexNode K V) :
    t.overwrite [] other = t :=
  ext_pages rfl rfl fun q => (page_overwrite t [] other q).trans (if_neg List.not_mem_nil)

end BplusTree

namespace TreeOp

variable (zeroKey : K)

def operationType : TreeOp K V → BplusTreeOperationType
  | .insertEntry .. => .insert
  | .deleteEntry _ => .delete

def key : TreeOp K V → K
  | .insertEntry key _ => key
  | .deleteEntry key => key

/-- What the operation does when it has found the leaf. -/
def atLeaf (t : BplusTree K V) (leaf : PageNum) : TreeOp K V → Except Fault (RC × BplusTree K V)
  | .insertEntry key value => t.insertEntryIntoLeafNode cmp zeroKey leaf key value
  | .deleteEntry key => t.deleteEntryInternal cmp leaf key

/-- The operation from a page of its descent on. -/
def rest (t : BplusTree K V) (fuel : Nat) (p : PageNum) (op : TreeOp K V) :
    Except Fault (RC × BplusTree K V) := do
  let leaf ← t.findLeafFrom (childOf cmp op.key) fuel p
  op.atLeaf cmp zeroKey t leaf

/-- From the root on it is the whole operation. -/
theorem apply_eq_rest {t : BplusTree K V} (hne : t.isEmpty = false) (op : TreeOp K V) :
    op.apply cmp zeroKey t = op.rest cmp zeroKey t t.pool.pageCount t.fileHeader.rootPage := by
  have hfind (key : K) : t.findLeaf cmp key
      = some <$> t.findLeafFrom (childOf cmp key) t.pool.pageCount t.fileHeader.rootPage := by
    unfold BplusTree.findLeaf BplusTree.findLeafInternal
    rw [if_neg (by rw [hne]; exact Bool.false_ne_true)]
    rfl
  cases op with
  | insertEntry key value =>
    show t.insertEntry cmp zeroKey key value = _
    unfold BplusTree.insertEntry rest
    rw [if_neg (by rw [hne]; exact Bool.false_ne_true), hfind]
    show _ = t.findLeafFrom (childOf cmp key) _ _ >>= _
    cases t.findLeafFrom (childOf cmp key) t.pool.pageCount t.fileHeader.rootPage with
    | error e => rfl
    | ok leaf => rfl
  | deleteEntry key =>
    show t.deleteEntry cmp key = _
    unfold BplusTree.deleteEntry rest
    rw [hfind]
    show _ = t.findLeafFrom (childOf cmp key) _ _ >>= _
    cases t.findLeafFrom (childOf cmp key) t.pool.pageCount t.fileHeader.rootPage with
    | error e => rfl
    | ok leaf => rfl

end TreeOp

section Rest

variable {cmp} {zeroKey : K} {t : BplusTree K V} {op : TreeOp K V} {p a leaf : PageNum}

/-- A well-formed tree whose root names no parent. -/
structure Rooted (cmp : K → K → Ordering) (t : BplusTree K V) : Prop extends WellFormed cmp t where
  rootParent : t.parentOf t.fileHeader.rootPage = some bpInvalidPageNum

theorem Levels.root_parent : ∀ {Ls : List (Level K)} {Z : List (K × PageNum)}, Levels zeroKey t Z Ls →
    t.parentOf t.fileHeader.rootPage = some bpInvalidPageNum
  | [], _, h => h.2
  | _ :: _, _, h => h.2.2.root_parent

/-- So is every tree that insertions and deletions lead to. -/
theorem Sound.rooted [Std.TransCmp cmp] {Q : K → Prop} (h : Sound cmp zeroKey Q t)
    (hne : t.isEmpty = false) : Rooted cmp t := by
  obtain ⟨⟨es, ⟨hempty, -⟩ | ⟨segs, Ls, hinv, -⟩⟩, -⟩ := h
  · exact absurd (hne.symm.trans hempty) Bool.false_ne_true
  · exact ⟨hinv.toTreeShape.wellFormed, hinv.levels.root_parent⟩

/-- The pages that are not below `a`. -/
def NotBelow (t : BplusTree K V) (a : PageNum) (q : PageNum) : Prop :=
  (t.body q).isSome ∧ ¬ ∃ n, Below t a n q

/-- A page above a leaf is at one depth only. -/
theorem depth_unique (hwf : WellFormed cmp t) {k n m : Nat} {next : PageNum} {array : List (K × V)}
    (hleaf : t.body leaf = some (.leaf next array)) (hk : Below t a k leaf)
    (hn : Below t t.fileHeader.rootPage n a) (hm : Below t t.fileHeader.rootPage m a) : n = m := by
  obtain ⟨h, hdepth⟩ := hwf.depth
  have h1 := hdepth _ _ next array (hn.trans hk) hleaf
  have h2 := hdepth _ _ next array (hm.trans hk) hleaf
  omega

/-- Nothing leads out of the tree below `a` but the parent field of `a`. -/
theorem closed_below (hwf : WellFormed cmp t) {k n : Nat} {next : PageNum} {array : List (K × V)}
    (hleaf : t.body leaf = some (.leaf next array)) (hk : Below t a k leaf)
    (hn : Below t t.fileHeader.rootPage n a) : Closed (NotBelow t a) a t := by
  have hbelow (q : PageNum) (hq : ¬ NotBelow t a q) (hsome : (t.body q).isSome) : ∃ m, Below t a m q :=
    Classical.not_not.mp fun h => hq ⟨hsome, h⟩
  have hself : ∀ m, ¬ Below t a (m + 1) a := by
    intro m hm
    have := depth_unique hwf hleaf hk hn (hn.trans hm)
    omega
  refine ⟨fun h => h.2 ⟨0, .here a⟩, hwf.isSome n a hn, fun q items hq hbody c hc => ?_,
    fun q r hq hne hparent => ?_⟩
  · obtain ⟨m, hm⟩ := hbelow q hq (by rw [hbody]; rfl)
    have hc' : Below t a (m + 1) c := hm.snoc ⟨items, hbody, hc⟩
    refine ⟨fun h => h.2 ⟨_, hc'⟩, ?_⟩
    rintro rfl
    exact hself m hc'
  · have hsome : (t.body q).isSome := by
      rw [← parentOf_isSome, hparent]
      rfl
    obtain ⟨m, hm⟩ := hbelow q hq hsome
    have hnotRoot : q ≠ t.fileHeader.rootPage := by
      rintro rfl
      rcases hm.last with ⟨-, rfl⟩ | ⟨r', m', rfl, hr', hchild⟩
      · exact hne rfl
      · have := depth_unique hwf hleaf hk hn (hn.trans (hm.trans hn))
        omega
    rcases hm.last with ⟨-, rfl⟩ | ⟨r', m', rfl, hr', hchild⟩
    · exact absurd rfl hne
    · obtain ⟨q', _, items, hq', -, hbody, -, huniq⟩ := hwf.parent _ q (hn.trans hm) hnotRoot
      obtain rfl := Option.some.inj (hq'.symm.trans hparent)
      obtain rfl := huniq r' _ (hn.trans hr') hchild
      exact ⟨fun h => h.2 ⟨_, hr'⟩, ne_invalid_of_body hbody⟩

/-- From a page below `a` on, the operation touches nothing that is not below `a`. -/
theorem rest_apart {u : BplusTree K V} (h : Apart (NotBelow t a) a t u True t u)
    (hinsert : op.operationType = .insert → Apart.HasRoom t a)
    (hdelete : op.operationType = .delete → Apart.HasSpare t a) (hp : ¬ NotBelow t a p) (fuel : Nat) :
    Agree (Apart.Answers (NotBelow t a) a t u) (op.rest cmp zeroKey t fuel p)
      (op.rest cmp zeroKey u fuel p) := by
  unfold TreeOp.rest
  refine (h.findLeafFrom (childOf cmp op.key) (fun _ _ hc => Apart.mem_of_valueAt hc) hp).bind ?_
  rintro leaf _ ⟨rfl, hleaf⟩
  cases op with
  | insertEntry key value => exact h.insertEntryIntoLeafNode cmp zeroKey (hinsert rfl) hleaf key value
  | deleteEntry key => exact h.deleteEntryInternal cmp (hdelete rfl) hleaf key

theorem hasRoom_of_safe {node : IndexNode K V} (hget : t.getPage a = .ok node) {isRootNode : Bool}
    (hsafe : node.isSafe t.fileHeader .insert isRootNode = true) : Apart.HasRoom t a := by
  intro b hb
  obtain rfl := Option.some.inj ((body_of_getPage hget).symm.trans hb)
  exact of_decide_eq_true hsafe

theorem hasSpare_of_safe {node : IndexNode K V} (hget : t.getPage a = .ok node) {isRootNode : Bool}
    (hroot : isRootNode = true → t.parentOf a = some bpInvalidPageNum)
    (hsafe : node.isSafe t.fileHeader .delete isRootNode = true) : Apart.HasSpare t a := by
  intro b hb
  obtain rfl := Option.some.inj ((body_of_getPage hget).symm.trans hb)
  unfold IndexNode.isSafe at hsafe
  dsimp only at hsafe
  cases isRootNode with
  | false => exact Or.inl (of_decide_eq_true hsafe)
  | true =>
    rw [if_pos rfl] at hsafe
    refine Or.inr ⟨hroot rfl, ?_⟩
    cases hleaf : node.body.isLeaf with
    | true =>
      rw [hleaf, if_pos rfl] at hsafe
      exact Or.inr ⟨rfl, of_decide_eq_true hsafe⟩
    | false =>
      rw [hleaf, if_neg Bool.false_ne_true] at hsafe
      exact Or.inl (of_decide_eq_true hsafe)

/-- The two results of runs that differ outside only. -/
theorem eq_overwrite {pages : List PageNum} {other : PageNum → IndexNode K V}
    (hpages : ∀ q ∈ pages, NotBelow t a q) {keep : Prop} {t' u' : BplusTree K V}
    (h : Apart (NotBelow t a) a t (t.overwrite pages other) keep t' u') : u' = t'.overwrite pages other := by
  refine ext_pages h.sameHeader h.pageCount fun q => ?_
  rw [page_overwrite]
  by_cases hq : NotBelow t a q
  · rw [(h.untouched q hq).1, (h.untouched q hq).2, page_overwrite]
  · rw [if_neg fun hmem => hq (hpages q hmem), h.same q hq]

variable (zeroKey op) in
/-- **Crabbing releases safe ancestors only.**  In every well-formed tree and at every moment of the descent
    of an insertion or a deletion that finds its leaf: whatever the pages hold whose latches have been given
    back, the rest of the operation does the same; it leaves them as they are, and the root where it is once
    the root lock has been given back. -/
theorem latch_crabbing (hwf : Rooted cmp t) {above : List PageNum} {items : List LatchMemoItem}
    (hfetched : Fetched cmp t op.operationType op.key above p items) {fuel : Nat}
    (hleaf : t.findLeafFrom (childOf cmp op.key) fuel p = .ok leaf) :
    (∀ other, op.rest cmp zeroKey (t.overwrite (released op.operationType above items) other) fuel p
      = (op.rest cmp zeroKey t fuel p).map fun r =>
          (r.1, r.2.overwrite (released op.operationType above items) other)) ∧
    ∀ rc t', op.rest cmp zeroKey t fuel p = .ok (rc, t') →
      (∀ q ∈ released op.operationType above items, t'.pool.page q = t.pool.page q) ∧
      (.lock op.operationType.latchType ∉ items → t'.fileHeader.rootPage = t.fileHeader.rootPage) := by
  -- either the memo still holds everything, or some page of the descent was safe and what is above it is released
  rcases hfetched.safe with ⟨hlock, hall⟩ | ⟨A, a, B, node, hpath, hget, hsafe, hall⟩
  · -- nothing has been released
    have hnil : released op.operationType above items = [] := by
      refine List.filter_eq_nil_iff.mpr fun q hq => ?_
      rw [decide_eq_true_eq, not_not]
      exact hall q (List.mem_append_left _ hq)
    rw [hnil]
    refine ⟨fun other => ?_, fun rc t' _ =>
      ⟨fun q hq => absurd hq List.not_mem_nil, fun h => absurd hlock h⟩⟩
    simp only [overwrite_nil]
    exact (congrFun Except.map_id _).symm
  · obtain ⟨hroot, hbelow, hA⟩ := hfetched.path A a B hpath
    obtain ⟨k, next, array, hk, hbody⟩ := below_leaf hleaf
    have hka : Below t a (B.length + k) leaf := hbelow.trans hk
    -- a page that has been released is above the safe page, hence not below it: its depth is another one
    have hpages : ∀ q ∈ released op.operationType above items, NotBelow t a q := by
      intro q hq
      obtain ⟨hmem, hitems⟩ := List.mem_filter.mp hq
      have hqA : q ∈ A := by
        have hq' : q ∈ A ++ a :: B := hpath ▸ List.mem_append_left _ hmem
        rcases List.mem_append.mp hq' with hq' | hq'
        · exact hq'
        · exact absurd (hall q hq') (of_decide_eq_true hitems)
      obtain ⟨n, m, hn, hm⟩ := hA q hqA
      refine ⟨hwf.isSome n q hn, fun ⟨j, hj⟩ => ?_⟩
      have := depth_unique hwf.toWellFormed hbody hka hroot (hroot.trans (hj.trans hm))
      omega
    have hclosed := closed_below hwf.toWellFormed hbody hka hroot
    have hp : ¬ NotBelow t a p := fun h => h.2 ⟨_, hbelow⟩
    -- a safe page has room for an insertion, or an item to spare for a deletion
    have hinsert (hop : op.operationType = .insert) : Apart.HasRoom t a :=
      hasRoom_of_safe hget (hop ▸ hsafe)
    have hdelete (hop : op.operationType = .delete) : Apart.HasSpare t a := by
      refine hasSpare_of_safe hget (fun hempty => ?_) (hop ▸ hsafe)
      rw [List.isEmpty_iff.mp hempty] at hroot
      cases hroot
      exact hwf.rootParent
    -- so two trees that differ only outside agree on the rest of the operation
    have hrun (other : PageNum → IndexNode K V) :
        Agree (Apart.Answers (NotBelow t a) a t (t.overwrite (released op.operationType above items) other))
          (op.rest cmp zeroKey t fuel p)
          (op.rest cmp zeroKey (t.overwrite (released op.operationType above items) other) fuel p) := by
      have happart : Apart (NotBelow t a) a t (t.overwrite (released op.operationType above items) other) True
          t (t.overwrite (released op.operationType above items) other) := by
        refine Apart.refl hclosed rfl rfl (fun q hq => ?_) fun q hq => ⟨?_, ?_⟩
        · exact (page_overwrite t _ other q).trans (if_neg fun hmem => hq (hpages q hmem))
        · rw [page_isSome]
          exact hq.1
        · rw [page_overwrite]
          split
          · rw [Option.isSome_map, page_isSome]
            exact hq.1
          · rw [page_isSome]
            exact hq.1
      exact rest_apart happart hinsert hdelete hp fuel
    constructor
    · intro other
      exact (hrun other).eq_map fun _ _ h => Prod.ext h.1.symm (eq_overwrite hpages h.2)
    -- the same with any other content shows that the released pages are not written
    · intro rc t' hrest
      have hagree := hrun fun _ => ⟨bpInvalidPageNum, .leaf bpInvalidPageNum []⟩
      rw [hrest] at hagree
      generalize op.rest cmp zeroKey (t.overwrite _ _) fuel p = out at hagree
      cases hagree with
      | ok h => exact ⟨fun q hq => (h.2.untouched q (hpages q hq)).1, fun _ => congrArg _ h.2.header⟩

/-- A root with two leaves: the second leaf has three entries, so the latch of the root is given back. -/
theorem latch_crabbing_two_leaves : ∃ t : BplusTree Int Unit,
    Fetched compare t .delete 5 [4] 3 [.frame .pin 3, .frame .exclusive 3] ∧
    ∀ other, (TreeOp.deleteEntry 5).rest compare 0 (t.overwrite [4] other) 1 3
      = ((TreeOp.deleteEntry 5).rest compare 0 t 1 3).map fun r => (r.1, r.2.overwrite [4] other) := by
  have hcap : Capacity compare (0 : Int) (fun _ => True) (create 4 6 4 : BplusTree Int Unit).fileHeader :=
    ⟨by decide, by decide, Or.inl (by decide)⟩
  -- five insertions split the leaf 2 once; 3 is its right half and 4 the root
  obtain ⟨rcs, t, hrun, hsound⟩ := runOps_sound (Sound.create hcap)
    [.insertEntry 1 (), .insertEntry 2 (), .insertEntry 3 (), .insertEntry 4 (), .insertEntry 5 ()]
    fun op _ => by cases op <;> trivial
  have hpages : (runOps (TreeOp.apply compare (0 : Int)) (create 4 6 4) [.insertEntry 1 (), .insertEntry 2 (),
      .insertEntry 3 (), .insertEntry 4 (), .insertEntry 5 ()]).map
        (fun r => (r.2.pool.page 4, r.2.pool.page 3, r.2.fileHeader))
      = .ok (some ⟨-1, .internal [(0, 2), (3, 3)]⟩, some ⟨4, .leaf (-1) [(3, ()), (4, ()), (5, ())]⟩,
          ⟨4, 6, 4⟩) := rfl
  rw [hrun] at hpages
  obtain ⟨hroot, hleaf, hheader⟩ : t.pool.page 4 = some ⟨-1, .internal [(0, 2), (3, 3)]⟩ ∧
      t.pool.page 3 = some ⟨4, .leaf (-1) [(3, ()), (4, ()), (5, ())]⟩ ∧ t.fileHeader = ⟨4, 6, 4⟩ := by
    simpa using Except.ok.inj hpages
  have hne : t.isEmpty = false := by
    unfold isEmpty
    rw [hheader]
    rfl
  -- the root has two children, so the deletion keeps its latch; the leaf is large enough to let it go
  have hfetchRoot : t.crabingProtocalFetchPage .delete t.fileHeader.rootPage true [.lock .exclusive]
      = .ok [.lock .exclusive, .frame .pin 4, .frame .exclusive 4] := by
    unfold crabingProtocalFetchPage getPage
    rw [hheader, hroot]
    rfl
  have hfetchLeaf : t.crabingProtocalFetchPage .delete 3 false
      [.lock .exclusive, .frame .pin 4, .frame .exclusive 4] = .ok [.frame .pin 3, .frame .exclusive 3] := by
    unfold crabingProtocalFetchPage getPage
    rw [hheader, hleaf]
    rfl
  have hbody : t.body t.fileHeader.rootPage = some (.internal [(0, 2), (3, 3)]) := by
    unfold body
    rw [hheader, hroot]
    rfl
  have hfetched : Fetched compare t .delete 5 [4] 3 [.frame .pin 3, .frame .exclusive 3] := by
    have hchild : childOf compare (5 : Int) [(0, 2), (3, 3)] = .ok 3 := rfl
    have h := Fetched.child (.root hfetchRoot) hbody hchild hfetchLeaf
    rwa [hheader] at h
  have hfind : t.findLeafFrom (childOf compare 5) 1 3 = .ok 3 := by
    unfold findLeafFrom getPage
    rw [hleaf]
    rfl
  exact ⟨t, hfetched, (latch_crabbing 0 (.deleteEntry 5) (hsound.rooted hne) hfetched hfind).1⟩

end Rest

end Miniob.Index
