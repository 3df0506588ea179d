/-
  The B+ tree of src/observer/storage/index/bplus_tree.{h,cpp}: node layout, node handlers and
  the tree operations, as one thread runs them.

  * A node is a page of the pool (`IndexNode`): the parent page number plus either the items of a
    leaf (key, RID) and its right brother, or the items of an internal node (key, child page).
    Keys are compared by `cmp`, the sign of `KeyComparator::operator()`; `zeroKey` is the key that
    `create_new_root` writes with `memset(__key_at(0), 0, key_size())`.
  * The tree climbs through the parent fields and finds its neighbours through the parent's items,
    as the source does; there is no recursion over an inductive tree.  Walks along page numbers
    get the number of pages of the file as fuel.
  * An access the source guards with an assertion, or does not guard at all, is a `Fault` here:
    a page that is not allocated, an item index outside the node, the `ASSERT` after the parent's
    lookup.  A definition that returns `.ok` made none of these.

  Left out: latches and pins (one thread), the log calls (they do not change a page), the LOG_*
  output, and `mem_pool_item_`.  `LatchMemo::dispose_page` defers the disposal to the end of the
  operation; no later step of an operation reads a page it has disposed, so the page is removed
  at once.
-/
import Miniob.Common.LowerBound
import Miniob.Storage.PagePool

namespace Miniob.Index

open Miniob.Common Miniob.Storage

/-! ## Data model -/

/-- The part of a node that differs between `LeafIndexNode` and `InternalIndexNode`. -/
inductive NodeBody (K V : Type) where
  | leaf (nextBrother : PageNum) (array : List (K × V))
  | internal (array : List (K × PageNum))

/-- `struct IndexNode`; `key_num` is the length of the array. -/
structure IndexNode (K V : Type) where
  parent : PageNum
  body : NodeBody K V

/-- The fields of `struct IndexFileHeader` that the tree algorithms read. -/
structure IndexFileHeader where
  rootPage : PageNum
  internalMaxSize : Nat
  leafMaxSize : Nat

/-- What a run of the tree code can do that its assertions exclude. -/
inductive Fault where
  | page (pageNum : PageNum)
  | nodeType (pageNum : PageNum)
  | keyAt (index : Nat)
  | valueAt (index : Nat)
  | setKeyAt (index : Nat)
  | itemAt (index : Nat)
  | insertItems (index : Nat)
  | removeItems (index : Nat)
  | lookup (index : Nat)
  | fuel
  deriving DecidableEq, Repr

/-- `BplusTreeHandler`: the cached file header and the pages of the index file. -/
structure BplusTree (K V : Type) where
  fileHeader : IndexFileHeader
  pool : PagePool (IndexNode K V)

/-- `calc_internal_page_capacity`. -/
def calcInternalPageCapacity (attrLength : Nat) : Nat :=
  (bpPageDataSize - 12) / (attrLength + 8 + 4)

/-- `calc_leaf_page_capacity`. -/
def calcLeafPageCapacity (attrLength : Nat) : Nat :=
  (bpPageDataSize - (12 + 4)) / (attrLength + 8 + 8)

/-! ## Node handlers

  The handlers' array operations, on the items of either node kind. -/

section Handlers

variable {K V β : Type}

namespace NodeBody

def isLeaf : NodeBody K V → Bool
  | .leaf .. => true
  | .internal _ => false

/-- `IndexNodeHandler::size`. -/
def size : NodeBody K V → Nat
  | .leaf _ array => array.length
  | .internal array => array.length

end NodeBody

/-- `IndexNodeHandler::max_size`. -/
def IndexFileHeader.maxSize (header : IndexFileHeader) (isLeaf : Bool) : Nat :=
  if isLeaf then header.leafMaxSize else header.internalMaxSize

/-- `IndexNodeHandler::min_size`. -/
def IndexFileHeader.minSize (header : IndexFileHeader) (isLeaf : Bool) : Nat :=
  header.maxSize isLeaf - header.maxSize isLeaf / 2

/-- `key_at`, with its assertion. -/
def keyAt (array : List (K × β)) (index : Nat) : Except Fault K :=
  match array[index]? with
  | some item => .ok item.1
  | none => .error (.keyAt index)

/-- `InternalIndexNodeHandler::value_at`, with its assertion. -/
def valueAt (array : List (K × PageNum)) (index : Nat) : Except Fault PageNum :=
  match array[index]? with
  | some item => .ok item.2
  | none => .error (.valueAt index)

/-- `set_key_at`, with its assertion. -/
def setKeyAt (array : List (K × β)) (index : Nat) (key : K) : Except Fault (List (K × β)) :=
  match array[index]? with
  | some item => .ok (array.set index (key, item.2))
  | none => .error (.setKeyAt index)

/-- `__item_at`, read by the functions that move items. -/
def itemAt (array : List (K × β)) (index : Nat) : Except Fault (K × β) :=
  match array[index]? with
  | some item => .ok item
  | none => .error (.itemAt index)

/-- `recover_insert_items`.  Past the end it would leave a gap of stale bytes. -/
def recoverInsertItems (array : List (K × β)) (index : Nat) (items : List (K × β)) :
    Except Fault (List (K × β)) :=
  if index ≤ array.length then .ok (array.take index ++ items ++ array.drop index)
  else .error (.insertItems index)

/-- `remove(index)`, with its assertion: `recover_remove_items(index, 1)`. -/
def recoverRemoveItem (array : List (K × β)) (index : Nat) : Except Fault (List (K × β)) :=
  if index < array.length then .ok (array.take index ++ array.drop (index + 1))
  else .error (.removeItems index)

variable (cmp : K → K → Ordering)

/-- `LeafIndexNodeHandler::lookup`: insert position and found flag. -/
def leafLookup (array : List (K × V)) (key : K) : Nat × Bool :=
  lowerBoundList (fun item => cmp item.1 key) array

/-- The `insert_position` of `InternalIndexNodeHandler::lookup`.  Item 0 is not searched: its key
    is never compared. -/
def insertPosition (array : List (K × PageNum)) (key : K) : Nat :=
  if array.length = 0 then 1
  else (lowerBoundList (fun item => cmp item.1 key) array.tail).1 + 1

/-- `InternalIndexNodeHandler::lookup`: the index of the child to follow. -/
def internalLookup (array : List (K × PageNum)) (key : K) : Nat :=
  if array.length = 0 then 0
  else
    let ret := insertPosition cmp array key
    match array[ret]? with
    | none => ret - 1
    | some item => if cmp key item.1 = .lt then ret - 1 else ret

/-- `InternalIndexNodeHandler::insert`, on the items. -/
def internalInsert (array : List (K × PageNum)) (key : K) (pageNum : PageNum) :
    Except Fault (List (K × PageNum)) :=
  recoverInsertItems array (insertPosition cmp array key) [(key, pageNum)]

end Handlers

/-! ## Pages -/

namespace BplusTree

variable {K V : Type}

/-- `LatchMemo::get_page`. -/
def getPage (t : BplusTree K V) (p : PageNum) : Except Fault (IndexNode K V) :=
  match t.pool.page p with
  | some node => .ok node
  | none => .error (.page p)

/-- The items of a page used through `InternalIndexNodeHandler`. -/
def getInternal (t : BplusTree K V) (p : PageNum) : Except Fault (List (K × PageNum)) :=
  match t.pool.page p with
  | some ⟨_, .internal array⟩ => .ok array
  | some ⟨_, .leaf ..⟩ => .error (.nodeType p)
  | none => .error (.page p)

/-- The right brother and the items of a page used through `LeafIndexNodeHandler`. -/
def getLeaf (t : BplusTree K V) (p : PageNum) : Except Fault (PageNum × List (K × V)) :=
  match t.pool.page p with
  | some ⟨_, .leaf nextBrother array⟩ => .ok (nextBrother, array)
  | some ⟨_, .internal _⟩ => .error (.nodeType p)
  | none => .error (.page p)

/-- Overwrite a node's items (and right brother), keeping its parent field. -/
def setBody (t : BplusTree K V) (p : PageNum) (body : NodeBody K V) : BplusTree K V :=
  { t with pool := t.pool.modifyPage p fun node => { node with body } }

/-- The store of `IndexNodeHandler::set_parent_page_num`. -/
def setParent (t : BplusTree K V) (p q : PageNum) : BplusTree K V :=
  { t with pool := t.pool.modifyPage p fun node => { node with parent := q } }

/-- `LatchMemo::dispose_page`. -/
def disposePage (t : BplusTree K V) (p : PageNum) : BplusTree K V :=
  { t with pool := t.pool.disposePage p }

/-- `allocate_page` followed by the node handler's `init_empty`. -/
def allocateNode (t : BplusTree K V) (body : NodeBody K V) : PageNum × BplusTree K V :=
  let (p, pool) := t.pool.allocatePage ⟨bpInvalidPageNum, body⟩
  (p, { t with pool })

/-- `update_root_page_num_locked`. -/
def updateRootPageNum (t : BplusTree K V) (rootPageNum : PageNum) : BplusTree K V :=
  { t with fileHeader := { t.fileHeader with rootPage := rootPageNum } }

/-- `is_empty`. -/
def isEmpty (t : BplusTree K V) : Bool := t.fileHeader.rootPage == bpInvalidPageNum

/-- `IndexNodeHandler::set_parent_page_num` on the node of page `p`. -/
def setParentPageNum (t : BplusTree K V) (p q : PageNum) : Except Fault (BplusTree K V) := do
  let _ ← t.getPage p
  return t.setParent p q

/-- The loop of `InternalIndexNodeHandler::insert_items`: every child that arrives in `q` gets `q`
    as its parent. -/
def setChildrenParent (t : BplusTree K V) (q : PageNum) :
    List PageNum → Except Fault (BplusTree K V)
  | [] => .ok t
  | c :: cs => do
    let t ← t.setParentPageNum c q
    t.setChildrenParent q cs

/-- `InternalIndexNodeHandler::insert_items` on page `q`, whose items are `array`. -/
def insertItems (t : BplusTree K V) (q : PageNum) (array : List (K × PageNum)) (index : Nat)
    (items : List (K × PageNum)) : Except Fault (BplusTree K V) := do
  let array ← recoverInsertItems array index items
  (t.setBody q (.internal array)).setChildrenParent q (items.map Prod.snd)

/-- `BplusTreeHandler::create`: an empty tree whose capacities are computed from the key length
    unless they are given. -/
def create (attrLength : Nat) (internalMaxSize leafMaxSize : Int) : BplusTree K V where
  fileHeader :=
    { rootPage := bpInvalidPageNum
      internalMaxSize :=
        if internalMaxSize < 0 then calcInternalPageCapacity attrLength else internalMaxSize.toNat
      leafMaxSize :=
        if leafMaxSize < 0 then calcLeafPageCapacity attrLength else leafMaxSize.toNat }
  pool := .empty

/-! ## Search -/

variable (cmp : K → K → Ordering) (zeroKey : K)

/-- The descent of `find_leaf_internal` from page `p`. -/
def findLeafFrom (t : BplusTree K V)
    (childPageGetter : List (K × PageNum) → Except Fault PageNum) :
    Nat → PageNum → Except Fault PageNum
  | 0, _ => .error .fuel
  | fuel + 1, p => do
    match (← t.getPage p).body with
    | .leaf .. => return p
    | .internal array =>
      let nextPageId ← childPageGetter array
      t.findLeafFrom childPageGetter fuel nextPageId

/-- `find_leaf_internal`; `none` is `RC::EMPTY`. -/
def findLeafInternal (t : BplusTree K V)
    (childPageGetter : List (K × PageNum) → Except Fault PageNum) :
    Except Fault (Option PageNum) :=
  if t.isEmpty then .ok none
  else some <$> t.findLeafFrom childPageGetter t.pool.pageCount t.fileHeader.rootPage

/-- `find_leaf`. -/
def findLeaf (t : BplusTree K V) (key : K) : Except Fault (Option PageNum) :=
  t.findLeafInternal fun array => valueAt array (internalLookup cmp array key)

/-- `left_most_page`. -/
def leftMostPage (t : BplusTree K V) : Except Fault (Option PageNum) :=
  t.findLeafInternal fun array => valueAt array 0

/-! ## Insertion -/

/-- `split<LeafIndexNodeHandler>`: the upper half of `frame` moves to a new leaf. -/
def splitLeaf (t : BplusTree K V) (frame : PageNum) :
    Except Fault (PageNum × BplusTree K V) := do
  let node ← t.getPage frame
  let (nextBrother, array) ← t.getLeaf frame
  let (newFrame, t) := t.allocateNode (.leaf bpInvalidPageNum [])
  let t := t.setParent newFrame node.parent
  let moveIndex := array.length / 2
  let t := t.setBody newFrame (.leaf bpInvalidPageNum (array.drop moveIndex))
  let t := t.setBody frame (.leaf nextBrother (array.take moveIndex))
  return (newFrame, t)

/-- `split<InternalIndexNodeHandler>`: as for a leaf, and the children that move learn their new
    parent. -/
def splitInternal (t : BplusTree K V) (frame : PageNum) :
    Except Fault (PageNum × BplusTree K V) := do
  let node ← t.getPage frame
  let array ← t.getInternal frame
  let (newFrame, t) := t.allocateNode (.internal [])
  let t := t.setParent newFrame node.parent
  let moveIndex := array.length / 2
  let t ← t.insertItems newFrame [] 0 (array.drop moveIndex)
  let t := t.setBody frame (.internal (array.take moveIndex))
  return (newFrame, t)

/-- `insert_entry_into_parent`: hang `newFrame`, whose smallest key is `key`, next to `frame`. -/
def insertEntryIntoParent : Nat → BplusTree K V → PageNum → PageNum → K →
    Except Fault (BplusTree K V)
  | 0, _, _, _, _ => .error .fuel
  | fuel + 1, t, frame, newFrame, key => do
    let parentPageNum := (← t.getPage frame).parent
    if parentPageNum = bpInvalidPageNum then
      -- create new root page (`init_empty` and `create_new_root`)
      let (rootFrame, t) := t.allocateNode (.internal [(zeroKey, frame), (key, newFrame)])
      let t ← t.setParentPageNum frame rootFrame
      let t ← t.setParentPageNum newFrame rootFrame
      return t.updateRootPageNum rootFrame
    else
      let parentArray ← t.getInternal parentPageNum
      if parentArray.length < t.fileHeader.internalMaxSize then
        let array ← internalInsert cmp parentArray key newFrame
        (t.setBody parentPageNum (.internal array)).setParentPageNum newFrame parentPageNum
      else
        -- the parent is full: split it first
        let (newParentFrame, t) ← t.splitInternal parentPageNum
        let newArray ← t.getInternal newParentFrame
        let firstKey ← keyAt newArray 0
        -- insert into left or right? decide by key compare result
        let t ←
          if cmp key firstKey = .gt then do
            let array ← internalInsert cmp newArray key newFrame
            (t.setBody newParentFrame (.internal array)).setParentPageNum newFrame newParentFrame
          else do
            let array ← internalInsert cmp (← t.getInternal parentPageNum) key newFrame
            (t.setBody parentPageNum (.internal array)).setParentPageNum newFrame parentPageNum
        let firstKey ← keyAt (← t.getInternal newParentFrame) 0
        insertEntryIntoParent fuel t parentPageNum newParentFrame firstKey

/-- `insert_entry_into_leaf_node`. -/
def insertEntryIntoLeafNode (t : BplusTree K V) (frame : PageNum) (key : K) (value : V) :
    Except Fault (RC × BplusTree K V) := do
  let (nextBrother, array) ← t.getLeaf frame
  let (insertPosition, exists_) := leafLookup cmp array key
  if exists_ then return (.recordDuplicateKey, t)
  if array.length < t.fileHeader.leafMaxSize then
    let array ← recoverInsertItems array insertPosition [(key, value)]
    return (.success, t.setBody frame (.leaf nextBrother array))
  let (newFrame, t) ← t.splitLeaf frame
  let (_, leafArray) ← t.getLeaf frame
  let (_, newArray) ← t.getLeaf newFrame
  -- `set_next_page` of both leaves; `split` has set the new leaf's parent already
  let t ←
    if insertPosition < leafArray.length then do
      let leafArray ← recoverInsertItems leafArray insertPosition [(key, value)]
      pure ((t.setBody newFrame (.leaf nextBrother newArray)).setBody frame
        (.leaf newFrame leafArray))
    else do
      let newArray ← recoverInsertItems newArray (insertPosition - leafArray.length) [(key, value)]
      pure ((t.setBody newFrame (.leaf nextBrother newArray)).setBody frame
        (.leaf newFrame leafArray))
  let (_, newArray) ← t.getLeaf newFrame
  let firstKey ← keyAt newArray 0
  let t ← insertEntryIntoParent cmp zeroKey t.pool.pageCount t frame newFrame firstKey
  return (.success, t)

/-- `create_new_tree`. -/
def createNewTree (t : BplusTree K V) (key : K) (value : V) : BplusTree K V :=
  let (frame, t) := t.allocateNode (.leaf bpInvalidPageNum [(key, value)])
  t.updateRootPageNum frame

/-- `BplusTreeHandler::insert_entry`, from `make_key` on. -/
def insertEntry (t : BplusTree K V) (key : K) (value : V) :
    Except Fault (RC × BplusTree K V) := do
  if t.isEmpty then return (.success, t.createNewTree key value)
  match ← t.findLeaf cmp key with
  | none => return (.empty, t)
  | some frame => t.insertEntryIntoLeafNode cmp zeroKey frame key value

/-! ## Deletion -/

/-- `adjust_root`. -/
def adjustRoot (t : BplusTree K V) (rootFrame : PageNum) : Except Fault (BplusTree K V) := do
  match (← t.getPage rootFrame).body with
  | .leaf _ array =>
    if array.length > 0 then return t
    else return (t.updateRootPageNum bpInvalidPageNum).disposePage rootFrame
  | .internal array =>
    -- the root has one child left: the child becomes the root
    let childPageNum ← valueAt array 0
    let t ← t.setParentPageNum childPageNum bpInvalidPageNum
    return (t.updateRootPageNum childPageNum).disposePage rootFrame

/-- `neighbor_node.move_first_to_end(node)` or `neighbor_node.move_last_to_front(node)`, for the
    node handler of the pages' kind: the new items of node and neighbour. -/
def moveOne (t : BplusTree K V) (neighborFrame frame : PageNum) (toEnd : Bool) :
    Except Fault (BplusTree K V) := do
  match (← t.getPage neighborFrame).body, (← t.getPage frame).body with
  | .leaf nextNeighbor neighborArray, .leaf nextNode array =>
    if toEnd then
      let item ← itemAt neighborArray 0
      let neighborArray ← recoverRemoveItem neighborArray 0
      return (t.setBody frame (.leaf nextNode (array ++ [item]))).setBody neighborFrame
        (.leaf nextNeighbor neighborArray)
    else
      let item ← itemAt neighborArray (neighborArray.length - 1)
      let neighborArray ← recoverRemoveItem neighborArray (neighborArray.length - 1)
      return (t.setBody frame (.leaf nextNode (item :: array))).setBody neighborFrame
        (.leaf nextNeighbor neighborArray)
  | .internal neighborArray, .internal array =>
    if toEnd then
      let item ← itemAt neighborArray 0
      let t ← t.insertItems frame array array.length [item]
      let neighborArray ← recoverRemoveItem neighborArray 0
      return t.setBody neighborFrame (.internal neighborArray)
    else
      let item ← itemAt neighborArray (neighborArray.length - 1)
      let t ← t.insertItems frame array 0 [item]
      let neighborArray ← recoverRemoveItem neighborArray (neighborArray.length - 1)
      return t.setBody neighborFrame (.internal neighborArray)
  | _, _ => .error (.nodeType neighborFrame)

/-- The first key of the node of page `p` (`key_at(0)` of either handler). -/
def firstKeyOf (t : BplusTree K V) (p : PageNum) : Except Fault K := do
  match (← t.getPage p).body with
  | .leaf _ array => keyAt array 0
  | .internal array => keyAt array 0

/-- The last key of the node of page `p` (`key_at(size() - 1)` of either handler). -/
def lastKeyOf (t : BplusTree K V) (p : PageNum) : Except Fault K := do
  match (← t.getPage p).body with
  | .leaf _ array => keyAt array (array.length - 1)
  | .internal array => keyAt array (array.length - 1)

/-- `redistribute`: borrow one item from the neighbour and fix the separator in the parent. -/
def redistribute (t : BplusTree K V) (neighborFrame frame parentFrame : PageNum) (index : Nat) :
    Except Fault (BplusTree K V) := do
  let t ← t.moveOne neighborFrame frame (index == 0)
  let parentArray ← t.getInternal parentFrame
  if index = 0 then
    -- the neighbor is at right
    let parentArray ← setKeyAt parentArray (index + 1) (← t.firstKeyOf neighborFrame)
    return t.setBody parentFrame (.internal parentArray)
  else
    -- the neighbor is at left
    let parentArray ← setKeyAt parentArray index (← t.firstKeyOf frame)
    return t.setBody parentFrame (.internal parentArray)

/-- `right_node.move_to(left_node)`, and for leaves the `next_brother` update of `coalesce`. -/
def moveTo (t : BplusTree K V) (rightFrame leftFrame : PageNum) : Except Fault (BplusTree K V) := do
  match (← t.getPage rightFrame).body, (← t.getPage leftFrame).body with
  | .leaf nextRight rightArray, .leaf _ leftArray =>
    return (t.setBody leftFrame (.leaf nextRight (leftArray ++ rightArray))).setBody rightFrame
      (.leaf nextRight [])
  | .internal rightArray, .internal leftArray =>
    let t ← t.insertItems leftFrame leftArray leftArray.length rightArray
    return t.setBody rightFrame (.internal [])
  | _, _ => .error (.nodeType rightFrame)

/-- `coalesce`, up to its final call of `coalesce_or_redistribute` on the parent. -/
def coalesce (t : BplusTree K V) (neighborFrame frame parentFrame : PageNum) (index : Nat) :
    Except Fault (BplusTree K V) := do
  let (leftFrame, rightFrame, index) :=
    if index = 0 then (frame, neighborFrame, index + 1) else (neighborFrame, frame, index)
  let parentArray ← recoverRemoveItem (← t.getInternal parentFrame) index
  let t := t.setBody parentFrame (.internal parentArray)
  let t ← t.moveTo rightFrame leftFrame
  return t.disposePage rightFrame

/-- `coalesce_or_redistribute`, for the node handler of the page's kind. -/
def coalesceOrRedistribute : Nat → BplusTree K V → PageNum → Except Fault (BplusTree K V)
  | 0, _, _ => .error .fuel
  | fuel + 1, t, frame => do
    let node ← t.getPage frame
    let size := node.body.size
    if size ≥ t.fileHeader.minSize node.body.isLeaf then return t
    if node.parent = bpInvalidPageNum then
      -- this is the root page
      if size > 1 then return t else t.adjustRoot frame
    else
      let parentArray ← t.getInternal node.parent
      let index := internalLookup cmp parentArray (← t.lastKeyOf frame)
      if (← valueAt parentArray index) ≠ frame then .error (.lookup index)
      else
        let neighborFrame ← valueAt parentArray (if index = 0 then 1 else index - 1)
        let neighbor ← t.getPage neighborFrame
        if size + neighbor.body.size > t.fileHeader.maxSize node.body.isLeaf then
          t.redistribute neighborFrame frame node.parent index
        else
          let t ← t.coalesce neighborFrame frame node.parent index
          coalesceOrRedistribute fuel t node.parent

/-- `delete_entry_internal`. -/
def deleteEntryInternal (t : BplusTree K V) (leafFrame : PageNum) (key : K) :
    Except Fault (RC × BplusTree K V) := do
  let (nextBrother, array) ← t.getLeaf leafFrame
  let (index, found) := leafLookup cmp array key
  if !found then return (.recordNotExist, t)
  let array ← recoverRemoveItem array index
  let t := t.setBody leafFrame (.leaf nextBrother array)
  if array.length ≥ t.fileHeader.minSize true then return (.success, t)
  let t ← coalesceOrRedistribute cmp t.pool.pageCount t leafFrame
  return (.success, t)

/-- `BplusTreeHandler::delete_entry`, from the key on. -/
def deleteEntry (t : BplusTree K V) (key : K) : Except Fault (RC × BplusTree K V) := do
  match ← t.findLeaf cmp key with
  | none => return (.recordNotExist, t)
  | some leafFrame => t.deleteEntryInternal cmp leafFrame key

end BplusTree
end Miniob.Index
