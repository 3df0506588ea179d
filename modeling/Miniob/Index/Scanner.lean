/-
  The scanner (`BplusTreeScanner`) and `get_entry`.

  `open` turns the bounds into keys and places the scanner on the first entry; `next_entry` emits
  the entry it stands on and moves right, along the items of a leaf and then along the
  `next_brother` fields.  Before it enters the next leaf it tries that leaf's latch: `trySlatch p`
  says whether the attempt on page `p` succeeds.  No scan tries the same leaf twice: a refused
  call has already moved `current_frame_` to the leaf it could not latch.

  The second half computes what a scan returns.  `scanned` is the list of entries that repeated
  calls emit, refusals included; `scan_eq` ties the code to it, and the remaining lemmas compare
  it with the entries between the bounds.
-/
import Miniob.Index.KeyComparator
import Miniob.Index.Leaves

namespace Miniob.Index

open Miniob.Common Miniob.Storage BplusTree

/-! ## The scanner -/

section Model

variable {K U V : Type}

/-- `BplusTreeScanner`; `current_frame_` is `none` where the source has `nullptr`. -/
structure BplusTreeScanner (K : Type) where
  currentFrame : Option PageNum
  iterIndex : Nat
  rightKey : Option K
  firstEmitted : Bool

variable (cmp : K → K → Ordering)

/-- `touch_end`, on the items of the current leaf. -/
def touchEnd (rightKey : Option K) (array : List (K × V)) (iterIndex : Nat) : Except Fault Bool :=
  match rightKey with
  | none => .ok false
  | some rightKey => do return cmp (← keyAt array iterIndex) rightKey == .gt

/-- `fetch_item`, on the items of the current leaf. -/
def fetchItem (array : List (K × V)) (iterIndex : Nat) : Except Fault V := do
  return (← itemAt array iterIndex).2

namespace BplusTree

/-- The part of `BplusTreeScanner::open` that places the scanner: page and item of the first
    candidate, if there is one. -/
def firstPosition (t : BplusTree K V) (leftKey : Option K) : Except Fault (Option (PageNum × Nat)) :=
  match leftKey with
  | none => do
    match ← t.leftMostPage with
    | none => return none
    | some frame => return some (frame, 0)
  | some leftKey => do
    match ← t.findLeaf cmp leftKey with
    | none => return none
    | some frame =>
      let (nextPageNum, array) ← t.getLeaf frame
      let (leftIndex, _) := leafLookup cmp array leftKey
      if leftIndex ≥ array.length then
        -- past the end of this page, move to the next one
        if nextPageNum = bpInvalidPageNum then return none
        else
          let _ ← t.getPage nextPageNum
          return some (nextPageNum, 0)
      else return some (frame, leftIndex)

/-- `BplusTreeScanner::open` from the keys on. -/
def openAt (t : BplusTree K V) (leftKey rightKey : Option K) :
    Except Fault (BplusTreeScanner K) := do
  match ← t.firstPosition cmp leftKey with
  | none => return ⟨none, 0, none, false⟩
  | some (frame, iterIndex) =>
    let (_, array) ← t.getLeaf frame
    if ← touchEnd cmp rightKey array iterIndex then return ⟨none, iterIndex, rightKey, false⟩
    else return ⟨some frame, iterIndex, rightKey, false⟩

variable (trySlatch : PageNum → Bool)

/-- `next_entry` after `iter_index_++`.  On entering the next leaf the source sets `iter_index_` to
    -1 and calls itself, which adds 1. -/
def nextEntryLoop (t : BplusTree K V) : Nat → BplusTreeScanner K →
    Except Fault (RC × Option V × BplusTreeScanner K)
  | 0, _ => .error .fuel
  | fuel + 1, s => do
    match s.currentFrame with
    | none => return (.recordEof, none, s)
    | some frame =>
      let (nextPageNum, array) ← t.getLeaf frame
      if s.iterIndex < array.length then
        if ← touchEnd cmp s.rightKey array s.iterIndex then return (.recordEof, none, s)
        else return (.success, some (← fetchItem array s.iterIndex), s)
      else if nextPageNum = bpInvalidPageNum then return (.recordEof, none, s)
      else
        let _ ← t.getPage nextPageNum
        -- `get_page` has already replaced `current_frame_` when the latch is refused
        let s := { s with currentFrame := some nextPageNum }
        if !trySlatch nextPageNum then return (.lockedNeedWait, none, s)
        else nextEntryLoop t fuel { s with iterIndex := 0 }

/-- `BplusTreeScanner::next_entry`. -/
def nextEntry (t : BplusTree K V) (s : BplusTreeScanner K) :
    Except Fault (RC × Option V × BplusTreeScanner K) := do
  match s.currentFrame with
  | none => return (.recordEof, none, s)
  | some frame =>
    if !s.firstEmitted then
      let (_, array) ← t.getLeaf frame
      return (.success, some (← fetchItem array s.iterIndex), { s with firstEmitted := true })
    else t.nextEntryLoop cmp trySlatch t.pool.pageCount { s with iterIndex := s.iterIndex + 1 }

/-- Call `next_entry` while it returns `SUCCESS`, and again after `LOCKED_NEED_WAIT` if `retry`:
    the last return code and the values. -/
def nextEntries (retry : Bool) (t : BplusTree K V) : Nat → BplusTreeScanner K →
    Except Fault (RC × List V)
  | 0, _ => .error .fuel
  | fuel + 1, s => do
    match ← t.nextEntry cmp trySlatch s with
    | (.success, some value, s) =>
      let (rc, values) ← nextEntries retry t fuel s
      return (rc, value :: values)
    | (rc, _, s) =>
      if rc = .lockedNeedWait ∧ retry = true then nextEntries retry t fuel s else return (rc, [])

/-- More calls than a scan can make: every call but the last emits an item or enters a leaf. -/
def scanCalls (t : BplusTree K V) : Nat := t.pool.pageCount * (t.fileHeader.leafMaxSize + 1) + 1

end BplusTree

/-! ### Bounds given as user keys -/

/-- A bound as the caller hands it over.  `rest` is what follows the user key in the caller's
    buffer, as the record identifier it would be. -/
structure Bound (U : Type) where
  userKey : U
  rest : RID
  inclusive : Bool

/-- The check of the two bounds at the start of `open`. -/
def rangeRejected (unique : Bool) (attrCmp : U → U → Ordering) (left right : Option (Bound U)) :
    Bool :=
  match left, right with
  | some left, some right =>
    let result := keyComparator unique attrCmp (left.userKey, left.rest) (right.userKey, right.rest)
    result == .gt || (result == .eq && (left.inclusive == false || right.inclusive == false))
  | _, _ => false

/-- The key `open` makes of a left bound. -/
def Bound.leftKey (bound : Bound U) : IndexKey U :=
  ⟨bound.userKey, if bound.inclusive then .min else .max⟩

/-- The key `open` makes of a right bound. -/
def Bound.rightKey (bound : Bound U) : IndexKey U :=
  ⟨bound.userKey, if bound.inclusive then .max else .min⟩

/-- `BplusTreeScanner::open`. -/
def BplusTree.openScanner (unique : Bool) (attrCmp : U → U → Ordering)
    (t : BplusTree (IndexKey U) V) (left right : Option (Bound U)) :
    Except Fault (RC × Option (BplusTreeScanner (IndexKey U))) := do
  if rangeRejected unique attrCmp left right then return (.invalidArgument, none)
  else
    let s ← t.openAt (keyCmp unique attrCmp) (left.map Bound.leftKey) (right.map Bound.rightKey)
    return (.success, some s)

/-- Open a scanner and read it to the end, calling again whenever it asks to wait. -/
def BplusTree.scan (unique : Bool) (attrCmp : U → U → Ordering) (trySlatch : PageNum → Bool)
    (t : BplusTree (IndexKey U) V) (left right : Option (Bound U)) : Except Fault (RC × List V) := do
  match ← t.openScanner unique attrCmp left right with
  | (_, some s) => t.nextEntries (keyCmp unique attrCmp) trySlatch true t.scanCalls s
  | (rc, none) => return (rc, [])

/-- `BplusTreeHandler::get_entry`, with no other thread around: no latch is refused. -/
def BplusTree.getEntry (unique : Bool) (attrCmp : U → U → Ordering) (t : BplusTree (IndexKey U) V)
    (userKey : U) (rest : RID) : Except Fault (RC × List V) := do
  let bound := some ⟨userKey, rest, true⟩
  match ← t.openScanner unique attrCmp bound bound with
  | (_, some s) =>
    let (rc, values) ← t.nextEntries (keyCmp unique attrCmp) (fun _ => true) false t.scanCalls s
    return (if rc = .recordEof then .success else rc, values)
  | (rc, none) => return (rc, [])

end Model
/-! ## What repeated calls emit -/

section Scanned

variable {K V : Type} {past : K × V → Bool} {trySlatch : PageNum → Bool}

/-- The entries emitted from a position on: `xs` are the items of the current leaf from index `i`
    on, then come the leaves `B`.  `past` is the test against the right bound.  After a refusal
    `iter_index_` is still the index behind the previous leaf, and the retry adds 1 to it. -/
def scanned (past : K × V → Bool) (trySlatch : PageNum → Bool) :
    List (K × V) → Nat → List (Seg K V) → List (K × V)
  | xs, _, [] => xs.takeWhile fun e => !past e
  | xs, i, y :: B =>
    if xs.any past then xs.takeWhile fun e => !past e
    else xs ++
      if trySlatch y.page then scanned past trySlatch y.items 0 B
      else scanned past trySlatch (y.items.drop (i + xs.length + 1)) (i + xs.length + 1) B

/-- An item in range is delivered, and the scan goes on. -/
theorem scanned_cons {e : K × V} {xs : List (K × V)} {i : Nat} {B : List (Seg K V)}
    (he : past e = false) :
    scanned past trySlatch (e :: xs) i B = e :: scanned past trySlatch xs (i + 1) B := by
  cases B with
  | nil => simp [scanned, he]
  | cons y B =>
    rw [scanned, scanned, List.any_cons, he, Bool.false_or, List.length_cons,
      show i + (xs.length + 1) = i + 1 + xs.length by omega]
    split
    · simp [he]
    · simp

theorem scanned_past {e : K × V} {xs : List (K × V)} {i : Nat} {B : List (Seg K V)}
    (he : past e = true) : scanned past trySlatch (e :: xs) i B = [] := by
  cases B with
  | nil => simp [scanned, he]
  | cons y B => simp [scanned, he]

/-- What is emitted is in order, never repeated and never past the right bound.  It is everything
    up to the right bound exactly if no leaf that starts before the bound was refused. -/
theorem scanned_spec (trySlatch : PageNum → Bool) : ∀ (B : List (Seg K V)) (xs : List (K × V)) (i : Nat),
    (xs ++ B.flatMap Seg.items).Pairwise (fun a b => past a = true → past b = true) →
    (∀ y ∈ B, y.items ≠ []) →
      (scanned past trySlatch xs i B).Sublist
        ((xs ++ B.flatMap Seg.items).filter fun e => !past e) ∧
      ((scanned past trySlatch xs i B).length
          = ((xs ++ B.flatMap Seg.items).filter fun e => !past e).length ↔
        ∀ y ∈ B, ∀ e ∈ y.items.head?, past e = false → trySlatch y.page = true)
  | B, e :: xs, i, hp, hne => by
    rw [List.cons_append] at hp
    cases he : past e with
    | true =>
      have hall := fun b hb => (List.pairwise_cons.mp hp).1 b hb he
      have hnil : ((e :: xs ++ B.flatMap Seg.items).filter fun e => !past e) = [] := by
        rw [List.cons_append, List.filter_eq_nil_iff]
        intro b hb
        rcases List.mem_cons.mp hb with rfl | hb
        · simp [he]
        · simp [hall b hb]
      rw [scanned_past he, hnil]
      refine ⟨List.nil_sublist _, ⟨fun _ y hy b hb hpast => ?_, fun _ => rfl⟩⟩
      rw [hall b (List.mem_append_right _ (List.mem_flatMap.mpr
        ⟨y, hy, List.mem_of_mem_head? hb⟩))] at hpast
      cases hpast
    | false =>
      obtain ⟨hsub, hlen⟩ := scanned_spec trySlatch B xs (i + 1) (List.pairwise_cons.mp hp).2 hne
      rw [scanned_cons he, List.cons_append, List.filter_cons_of_pos (by simp [he])]
      refine ⟨hsub.cons_cons e, ?_⟩
      rw [← hlen]
      simp
  | [], [], i, _, _ => by simp [scanned]
  | y :: B, [], i, hp, hne => by
    rw [List.nil_append, List.flatMap_cons] at hp
    have hneB : ∀ z ∈ B, z.items ≠ [] := fun z hz => hne z (by simp [hz])
    rw [scanned, List.any_nil, if_neg Bool.false_ne_true, List.nil_append, List.nil_append,
      List.flatMap_cons, List.length_nil, Nat.add_zero]
    by_cases hlatch : trySlatch y.page = true
    · obtain ⟨hsub, hlen⟩ := scanned_spec trySlatch B y.items 0 hp hneB
      rw [if_pos hlatch]
      refine ⟨hsub, hlen.trans ?_⟩
      simp [hlatch]
    · obtain ⟨e, es, hy⟩ := List.exists_cons_of_ne_nil (hne y (by simp))
      have hsubl : (y.items.drop (i + 1) ++ B.flatMap Seg.items).Sublist
          (es ++ B.flatMap Seg.items) := by
        rw [hy, List.drop_succ_cons]
        exact List.Sublist.append_right (List.drop_sublist _ _) _
      rw [hy, List.cons_append] at hp
      obtain ⟨hsub, hlen⟩ := scanned_spec trySlatch B (y.items.drop (i + 1)) (i + 1)
        ((List.pairwise_cons.mp hp).2.sublist hsubl) hneB
      have hsub' := hsub.trans (hsubl.filter fun e => !past e)
      rw [if_neg hlatch, hy, List.cons_append, ← hy]
      cases he : past e with
      | true =>
        -- the refused leaf starts behind the bound: nothing is lost
        have hall := fun b hb => (List.pairwise_cons.mp hp).1 b hb he
        have hnil : ((es ++ B.flatMap Seg.items).filter fun e => !past e) = [] := by
          rw [List.filter_eq_nil_iff]
          exact fun b hb => by simp [hall b hb]
        rw [hnil, List.sublist_nil] at hsub'
        rw [List.filter_cons_of_neg (by simp [he]), hnil, hsub']
        refine ⟨List.nil_sublist _, ⟨fun _ z hz b hb hpast => ?_, fun _ => rfl⟩⟩
        rcases List.mem_cons.mp hz with rfl | hz
        · rw [hy, List.head?_cons, Option.mem_some_iff] at hb
          rw [← hb, he] at hpast
          cases hpast
        · rw [hall b (List.mem_append_right _ (List.mem_flatMap.mpr
            ⟨z, hz, List.mem_of_mem_head? hb⟩))] at hpast
          cases hpast
      | false =>
        -- its first entry is lost
        rw [List.filter_cons_of_pos (by simp [he])]
        refine ⟨hsub'.cons e, ⟨fun hlen => ?_, fun hall => ?_⟩⟩
        · have := hsub'.length_le
          rw [List.length_cons] at hlen
          omega
        · exact absurd (hall y (by simp) e (by simp [hy]) he) hlatch
termination_by B xs => (B.length, xs.length)

end Scanned

/-! ## The code emits `scanned` -/

section Calls

variable {K V : Type} {cmp : K → K → Ordering} {trySlatch : PageNum → Bool} {t : BplusTree K V}

/-- The test of `touch_end` on an entry. -/
def pastRight (cmp : K → K → Ordering) (rightKey : Option K) (e : K × V) : Bool :=
  rightKey.any fun rightKey => cmp e.1 rightKey == .gt

theorem touchEnd_eq {rightKey : Option K} {pre post : List (K × V)} {e : K × V} :
    touchEnd cmp rightKey (pre ++ e :: post) pre.length = .ok (pastRight cmp rightKey e) := by
  cases rightKey with
  | none => rfl
  | some rightKey =>
    rw [touchEnd, keyAt, List.getElem?_append_right (Nat.le_refl _), Nat.sub_self]
    rfl

theorem fetchItem_eq {pre post : List (K × V)} {e : K × V} :
    fetchItem (pre ++ e :: post) pre.length = .ok e.2 := by
  rw [fetchItem, itemAt, List.getElem?_append_right (Nat.le_refl _), Nat.sub_self]
  rfl

/-- What is done with the outcome of one call. -/
def afterCall (cmp : K → K → Ordering) (trySlatch : PageNum → Bool) (retry : Bool)
    (t : BplusTree K V) (fuel : Nat) :
    RC × Option V × BplusTreeScanner K → Except Fault (RC × List V)
  | (.success, some value, s) => do
    let (rc, values) ← nextEntries cmp trySlatch retry t fuel s
    return (rc, value :: values)
  | (rc, _, s) =>
    if rc = .lockedNeedWait ∧ retry = true then nextEntries cmp trySlatch retry t fuel s
    else return (rc, [])

theorem nextEntries_succ {retry : Bool} {fuel : Nat} {s : BplusTreeScanner K} :
    nextEntries cmp trySlatch retry t (fuel + 1) s
      = t.nextEntry cmp trySlatch s >>= afterCall cmp trySlatch retry t fuel := by
  rw [nextEntries]
  refine congrArg _ (funext fun out => ?_)
  obtain ⟨rc, value, s⟩ := out
  cases rc <;> cases value <;> rfl

/-- Calls left at a position: one for each item and leaf ahead, and one for the end. -/
def callsAhead (xs : List (K × V)) (B : List (Seg K V)) : Nat :=
  xs.length + (B.map fun y => y.items.length + 1).sum + 1

section Steps

variable {p next : PageNum} {rightKey : Option K} {fuel i : Nat} {fe : Bool}

/-- The scanner stands on an item. -/
theorem nextEntryLoop_item {pre post : List (K × V)} {e : K × V}
    (hb : t.body p = some (.leaf next (pre ++ e :: post))) :
    t.nextEntryLoop cmp trySlatch (fuel + 1) ⟨some p, pre.length, rightKey, fe⟩
      = if pastRight cmp rightKey e = true
        then .ok (.recordEof, none, ⟨some p, pre.length, rightKey, fe⟩)
        else .ok (.success, some e.2, ⟨some p, pre.length, rightKey, fe⟩) := by
  rw [nextEntryLoop]
  simp only [getLeaf_eq hb, bind, Except.bind, touchEnd_eq, fetchItem_eq]
  rw [if_pos (by simp)]
  split <;> rfl

/-- The scanner stands behind the last leaf. -/
theorem nextEntryLoop_end {array : List (K × V)}
    (hb : t.body p = some (.leaf bpInvalidPageNum array)) (hi : array.length ≤ i) :
    t.nextEntryLoop cmp trySlatch (fuel + 1) ⟨some p, i, rightKey, fe⟩
      = .ok (.recordEof, none, ⟨some p, i, rightKey, fe⟩) := by
  rw [nextEntryLoop]
  simp only [getLeaf_eq hb, bind, Except.bind]
  rw [if_neg (by omega), if_pos trivial]
  rfl

/-- The scanner stands behind a leaf that has a right brother. -/
theorem nextEntryLoop_next {array : List (K × V)} {b : NodeBody K V}
    (hb : t.body p = some (.leaf next array)) (hi : array.length ≤ i)
    (hnext : t.body next = some b) :
    t.nextEntryLoop cmp trySlatch (fuel + 1) ⟨some p, i, rightKey, fe⟩
      = if trySlatch next = true
        then t.nextEntryLoop cmp trySlatch fuel ⟨some next, 0, rightKey, fe⟩
        else .ok (.lockedNeedWait, none, ⟨some next, i, rightKey, fe⟩) := by
  obtain ⟨q, hq⟩ := exists_parentOf hnext
  rw [nextEntryLoop]
  simp only [getLeaf_eq hb, getPage_eq hnext hq, bind, Except.bind]
  rw [if_neg (by omega), if_neg (ne_invalid_of_body hnext)]
  cases trySlatch next <;> rfl

end Steps

/-- **One position of a scan.**  The call made there and all calls after it emit `scanned`. -/
theorem nextEntryLoop_spec {retry : Bool} (rightKey : Option K)
    (hretry : retry = true ∨ ∀ p, trySlatch p = true) :
    ∀ (B : List (Seg K V)) (xs pre : List (K × V)) (x : Seg K V) (i fuel calls : Nat),
      LeafChain t bpInvalidPageNum (x :: B) → B.length < fuel → B.length < t.pool.pageCount →
      callsAhead xs B ≤ calls + 1 →
      (x.items = pre ++ xs ∧ i = pre.length ∨ xs = [] ∧ x.items.length ≤ i) →
      t.nextEntryLoop cmp trySlatch fuel ⟨some x.page, i, rightKey, true⟩
          >>= afterCall cmp trySlatch retry t calls
        = .ok (.recordEof, (scanned (pastRight cmp rightKey) trySlatch xs i B).map Prod.snd)
  | _, _, _, _, _, 0, _, _, hfuel, _, _, _ => absurd hfuel (Nat.not_lt_zero _)
  -- an entry is left in the leaf: it is given out, or it is past the right key
  | B, e :: xs, pre, x, i, fuel + 1, calls, hchain, hfuel, hpages, hcalls, hpos => by
    obtain ⟨hx, rfl⟩ : x.items = pre ++ e :: xs ∧ i = pre.length := by
      rcases hpos with h | ⟨h, -⟩
      · exact h
      · cases h
    have hb := hchain.1
    rw [hx] at hb
    rw [nextEntryLoop_item hb]
    cases hpast : pastRight cmp rightKey e with
    | true =>
      rw [if_pos rfl, scanned_past hpast]
      rfl
    | false =>
      -- one call of the scanner is used up by this entry
      simp only [callsAhead, List.length_cons] at hcalls
      obtain ⟨c, rfl⟩ : ∃ c, calls = c + 1 := ⟨calls - 1, by omega⟩
      rw [if_neg Bool.false_ne_true, scanned_cons hpast]
      change (nextEntries cmp trySlatch retry t (c + 1) _ >>= _) = _
      rw [nextEntries_succ]
      have ih := nextEntryLoop_spec rightKey hretry B xs (pre ++ [e]) x (pre.length + 1) t.pool.pageCount c
        hchain hpages hpages (by simp only [callsAhead]; omega) (Or.inl ⟨by simp [hx], by simp⟩)
      change ((t.nextEntryLoop cmp trySlatch t.pool.pageCount
        ⟨some x.page, pre.length + 1, rightKey, true⟩ >>= _) >>= _) = _
      rw [ih]
      rfl
  -- no entry is left and no leaf either
  | [], [], pre, x, i, fuel + 1, calls, hchain, _, _, _, hpos => by
    have hi : x.items.length ≤ i := by
      rcases hpos with ⟨h, rfl⟩ | ⟨-, h⟩
      · simp [h]
      · exact h
    rw [nextEntryLoop_end hchain.1 hi]
    rfl
  -- the next leaf is latched, or the latch is refused
  | y :: B, [], pre, x, i, fuel + 1, calls, hchain, hfuel, hpages, hcalls, hpos => by
    have hi : x.items.length ≤ i := by
      rcases hpos with ⟨h, rfl⟩ | ⟨-, h⟩
      · simp [h]
      · exact h
    obtain ⟨hb, hchain'⟩ := hchain
    simp only [List.length_cons] at hfuel hpages
    simp only [callsAhead, List.map_cons, List.sum_cons, List.length_nil] at hcalls
    rw [nextEntryLoop_next hb hi hchain'.1, scanned, List.any_nil, if_neg Bool.false_ne_true,
      List.nil_append, List.length_nil, Nat.add_zero]
    change (if trySlatch y.page = true then _ else _ : Except _ _) >>= _ = _
    by_cases hlatch : trySlatch y.page = true
    · rw [if_pos hlatch, if_pos hlatch]
      exact nextEntryLoop_spec rightKey hretry B y.items [] y 0 fuel calls hchain' (by omega) (by omega)
        (by simp only [callsAhead]; omega) (Or.inl ⟨rfl, rfl⟩)
    · -- refused: the retry goes on at the index after the one it stands on
      obtain rfl : retry = true := hretry.resolve_right fun h => hlatch (h y.page)
      obtain ⟨c, rfl⟩ : ∃ c, calls = c + 1 := ⟨calls - 1, by omega⟩
      rw [if_neg hlatch, if_neg hlatch]
      change nextEntries cmp trySlatch true t (c + 1) _ = _
      rw [nextEntries_succ]
      change (t.nextEntryLoop cmp trySlatch t.pool.pageCount
        ⟨some y.page, i + 1, rightKey, true⟩ >>= _) = _
      refine nextEntryLoop_spec rightKey hretry B (y.items.drop (i + 1)) (y.items.take (i + 1)) y (i + 1)
        t.pool.pageCount c hchain' (by omega) (by omega) ?_ ?_
      · simp only [callsAhead, List.length_drop]
        omega
      · by_cases hlen : i + 1 ≤ y.items.length
        · exact Or.inl ⟨(List.take_append_drop _ _).symm, by simp [hlen]⟩
        · exact Or.inr ⟨List.drop_eq_nil_of_le (by omega), by omega⟩
termination_by B xs => (B.length, xs.length)

end Calls

/-! ## Where a scan starts -/

section Open

variable {K V : Type} {cmp : K → K → Ordering} {zeroKey : K} {Q : K → Prop} {t : BplusTree K V}
  {segs : List (Seg K V)} {Ls : List (Level K)}

/-- The entry comes before the left bound. -/
def beforeLeft (cmp : K → K → Ordering) (leftKey : Option K) (e : K × V) : Bool :=
  leftKey.any fun leftKey => cmp e.1 leftKey == .lt

theorem beforeLeft_some {leftKey : K} {e : K × V} :
    beforeLeft cmp (some leftKey) e = true ↔ cmp e.1 leftKey = .lt := by simp [beforeLeft]

variable [Std.TransCmp cmp]

/-- `lookup` splits a sorted leaf at the first item that is not smaller. -/
theorem leafLookup_split {es : List (K × V)} (hs : es.Pairwise fun a b => cmp a.1 b.1 = .lt)
    (x : K) : ∃ pre post found, es = pre ++ post ∧ leafLookup cmp es x = (pre.length, found) ∧
      (∀ e ∈ pre, cmp e.1 x = .lt) ∧ ∀ e ∈ post, cmp e.1 x ≠ .lt := by
  rcases leafLookup_cases hs x with ⟨pre, e, post, rfl, he, hlook⟩ | ⟨pre, post, rfl, hpre, hpost, hlook⟩
  · have hp := List.pairwise_append.mp hs
    refine ⟨pre, e :: post, true, rfl, hlook, fun a ha => ?_, fun a ha => ?_⟩
    · exact Std.TransCmp.lt_of_lt_of_eq (hp.2.2 a ha e (by simp)) he
    · rcases List.mem_cons.mp ha with rfl | ha
      · rw [he]
        nofun
      · have := Std.TransCmp.gt_of_gt_of_eq
          (gt_of_lt ((List.pairwise_cons.mp hp.2.1).1 a ha)) he
        rw [this]
        nofun
  · refine ⟨pre, post, false, rfl, hlook, hpre, fun a ha => ?_⟩
    rw [gt_of_lt (hpost a ha)]
    nofun

/-- A position in the tree: the entries before it come before the left bound, the entry at it does
    not. -/
structure StartsAt (cmp : K → K → Ordering) (leftKey : Option K) (segs A : List (Seg K V))
    (x : Seg K V) (B : List (Seg K V)) (pre : List (K × V)) (e : K × V) (post : List (K × V)) :
    Prop where
  segs_eq : segs = A ++ x :: B
  items_eq : x.items = pre ++ e :: post
  before : ∀ b ∈ A.flatMap Seg.items ++ pre, beforeLeft cmp leftKey b = true
  start : beforeLeft cmp leftKey e = false

/-- The scan starts at the first item that is not in front of the left bound, if there is one. -/
theorem firstPosition_spec (h : TreeShape cmp zeroKey Q t segs Ls) (leftKey : Option K) :
    ((∀ e ∈ segs.flatMap Seg.items, beforeLeft cmp leftKey e = true) ∧
      t.firstPosition cmp leftKey = .ok none) ∨
    ∃ A x B pre e post, StartsAt cmp leftKey segs A x B pre e post ∧
      t.firstPosition cmp leftKey = .ok (some (x.page, pre.length)) := by
  cases leftKey with
  | none =>
    obtain ⟨x, B, rfl⟩ := List.exists_cons_of_ne_nil h.segs_ne_nil
    have hne := h.fenced.nonempty x (by simp)
    obtain ⟨e, post, hx⟩ : ∃ e post, x.items = e :: post := by
      refine List.exists_cons_of_ne_nil ?_
      rintro hn
      exact hne (by simp [Seg.keys, hn])
    refine Or.inr ⟨[], x, B, [], e, post, ⟨rfl, hx, fun b hb => absurd hb List.not_mem_nil, rfl⟩, ?_⟩
    rw [firstPosition, h.leftMostPage_eq]
    rfl
  | some k =>
    obtain ⟨A, x, B, rfl, hin, hfind⟩ := h.exists_findLeaf k
    have hs : x.items.Pairwise fun a b => cmp a.1 b.1 = .lt :=
      List.pairwise_map.mp (h.fenced.sorted x (by simp))
    obtain ⟨pre, post, found, hx, hlook, hpre, hpost⟩ := leafLookup_split hs k
    have hbody := h.leaves.body
    have hcode : t.firstPosition cmp (some k) =
        if pre.length ≥ x.items.length then
          if nextPage bpInvalidPageNum B = bpInvalidPageNum then .ok none
          else do
            let _ ← t.getPage (nextPage bpInvalidPageNum B)
            return some (nextPage bpInvalidPageNum B, 0)
        else .ok (some (x.page, pre.length)) := by
      rw [firstPosition, hfind]
      simp only [bind, Except.bind, getLeaf_eq hbody, hlook]
      rfl
    have hA : ∀ b ∈ A.flatMap Seg.items ++ pre, beforeLeft cmp (some k) b = true := by
      intro b hb
      rw [beforeLeft_some]
      rcases List.mem_append.mp hb with hb | hb
      · obtain ⟨a, ha, hb⟩ := List.mem_flatMap.mp hb
        exact hin.left_lt h.fenced a ha b.1 (List.mem_map_of_mem hb)
      · exact hpre b hb
    rw [hcode]
    cases post with
    | cons e post =>
      refine Or.inr ⟨A, x, B, pre, e, post, ⟨rfl, hx, hA, ?_⟩, ?_⟩
      · have := hpost e (by simp)
        rwa [← Bool.not_eq_true, beforeLeft_some]
      · rw [hx, if_neg (by simp)]
    | nil =>
      -- the position is behind the leaf
      rw [List.append_nil] at hx
      rw [hx, if_pos (Nat.le_refl _)]
      cases B with
      | nil =>
        refine Or.inl ⟨fun b hb => hA b ?_, if_pos rfl⟩
        simpa [hx] using hb
      | cons y B =>
        have hyb : t.body y.page = some (.leaf (nextPage bpInvalidPageNum B) y.items) := by
          have hl := h.leaves
          rw [show A ++ x :: y :: B = (A ++ [x]) ++ y :: B by simp] at hl
          exact hl.body
        obtain ⟨q, hq⟩ := exists_parentOf hyb
        obtain ⟨e, post, hy⟩ : ∃ e post, y.items = e :: post := by
          refine List.exists_cons_of_ne_nil fun hn => ?_
          exact h.fenced.nonempty y (by simp) (by simp [Seg.keys, hn])
        refine Or.inr ⟨A ++ [x], y, B, [], e, post, ⟨by simp, hy, fun b hb => hA b ?_, ?_⟩, ?_⟩
        · simpa [hx] using hb
        · have := (hin.lt_right h.fenced y (by simp)).2 e.1 (by simp [Seg.keys, hy])
          rw [← Bool.not_eq_true, beforeLeft_some, gt_of_lt this]
          rintro ⟨⟩
        · rw [show nextPage bpInvalidPageNum (y :: B) = y.page from rfl,
            if_neg (ne_invalid_of_body hyb), getPage_eq hyb hq]
          rfl

/-- The entry lies between the two bounds. -/
def betweenKeys (cmp : K → K → Ordering) (leftKey rightKey : Option K) (e : K × V) : Bool :=
  !beforeLeft cmp leftKey e && !pastRight cmp rightKey e

/-- A leaf that the range reaches from an earlier leaf is refused. -/
def RefusedInside (inRange : K × V → Bool) (trySlatch : PageNum → Bool) (segs : List (Seg K V)) :
    Prop :=
  ∃ A y B, segs = A ++ y :: B ∧ (∃ a ∈ A.flatMap Seg.items, inRange a = true) ∧
    (∃ e ∈ y.items.head?, inRange e = true) ∧ trySlatch y.page = false

/-- Behind the first item past the bound all are past it. -/
theorem pastRight_mono (rightKey : Option K) {es : List (K × V)}
    (hs : es.Pairwise fun a b => cmp a.1 b.1 = .lt) :
    es.Pairwise fun a b => pastRight cmp rightKey a = true → pastRight cmp rightKey b = true := by
  refine hs.imp fun {a b} hab hpast => ?_
  cases rightKey with
  | none => cases hpast
  | some k =>
    simp only [pastRight, Option.any_some, beq_iff_eq] at hpast ⊢
    exact Std.TransCmp.gt_trans (gt_of_lt hab) hpast

theorem beforeLeft_mono {leftKey : Option K} {a b : K × V} (hab : cmp a.1 b.1 = .lt)
    (ha : beforeLeft cmp leftKey a = false) : beforeLeft cmp leftKey b = false := by
  cases leftKey with
  | none => rfl
  | some k =>
    rw [← Bool.not_eq_true, beforeLeft_some] at ha ⊢
    exact fun hb => ha (Std.TransCmp.lt_trans hab hb)

namespace StartsAt

variable {leftKey rightKey : Option K} {A B : List (Seg K V)} {x : Seg K V}
  {pre post : List (K × V)} {e : K × V}

omit [Std.TransCmp cmp] in
theorem entries_eq (p : StartsAt cmp leftKey segs A x B pre e post) :
    segs.flatMap Seg.items = (A.flatMap Seg.items ++ pre) ++ (e :: post ++ B.flatMap Seg.items) := by
  rw [p.segs_eq]
  simp [p.items_eq]

/-- What lies between the bounds is what follows the start and is not past the right bound. -/
theorem filter_eq (p : StartsAt cmp leftKey segs A x B pre e post)
    (hs : (segs.flatMap Seg.items).Pairwise fun a b => cmp a.1 b.1 = .lt) :
    (segs.flatMap Seg.items).filter (betweenKeys cmp leftKey rightKey)
      = (e :: post ++ B.flatMap Seg.items).filter fun e => !pastRight cmp rightKey e := by
  rw [p.entries_eq] at hs ⊢
  have hstart : ∀ b ∈ e :: post ++ B.flatMap Seg.items, beforeLeft cmp leftKey b = false := by
    intro b hb
    rcases List.mem_cons.mp hb with rfl | hb
    · exact p.start
    · exact beforeLeft_mono ((List.pairwise_cons.mp (List.pairwise_append.mp hs).2.1).1 b hb) p.start
  rw [List.filter_append, List.filter_eq_nil_iff.mpr fun b hb => ?_, List.nil_append]
  · exact List.filter_congr fun b hb => by rw [betweenKeys, hstart b hb, Bool.not_false, Bool.true_and]
  · simp [betweenKeys, p.before b hb]

/-- A scan that starts here is disturbed by the refused leaves behind it that start in the range. -/
theorem refusedInside_iff (p : StartsAt cmp leftKey segs A x B pre e post)
    (hs : (segs.flatMap Seg.items).Pairwise fun a b => cmp a.1 b.1 = .lt)
    {trySlatch : PageNum → Bool} (hpast : pastRight cmp rightKey e = false) :
    RefusedInside (betweenKeys cmp leftKey rightKey) trySlatch segs ↔
      ¬ ∀ y ∈ B, ∀ b ∈ y.items.head?, pastRight cmp rightKey b = false →
        trySlatch y.page = true := by
  have hbetween : ∀ b : K × V, betweenKeys cmp leftKey rightKey b = true ↔
      beforeLeft cmp leftKey b = false ∧ pastRight cmp rightKey b = false := fun b => by
    simp [betweenKeys]
  have hs' := hs
  rw [p.entries_eq] at hs
  constructor
  · rintro ⟨A', y, B', hcut, ⟨a, ha, hain⟩, ⟨b, hb, hbin⟩, href⟩ hall
    rw [hbetween] at hain hbin
    rw [p.segs_eq] at hcut
    -- `y` comes after `x`, for an entry in the range comes before it
    have hyB : y ∈ B := by
      have hnot : ∀ z ∈ A, a ∉ z.items := fun z hz haz => by
        have := p.before a (List.mem_append_left _ (List.mem_flatMap.mpr ⟨z, hz, haz⟩))
        rw [hain.1] at this
        cases this
      obtain ⟨z, hz, haz⟩ := List.mem_flatMap.mp ha
      rcases List.append_eq_append_iff.mp hcut with ⟨M, rfl, hM⟩ | ⟨M, rfl, hM⟩
      · cases M with
        | nil => exact absurd haz (hnot z (by simpa using hz))
        | cons m M =>
          obtain ⟨-, rfl⟩ := List.cons_eq_cons.mp hM
          simp
      · exact absurd haz (hnot z (by simp [hz]))
    rw [hall y hyB b hb hbin.2] at href
    cases href
  · intro hnot
    push Not at hnot
    obtain ⟨y, hy, b, hb, hbpast, href⟩ := hnot
    obtain ⟨B₁, B₂, rfl⟩ := List.append_of_mem hy
    refine ⟨A ++ x :: B₁, y, B₂, by rw [p.segs_eq]; simp, ⟨e, ?_, ?_⟩, ⟨b, hb, ?_⟩, by simpa using href⟩
    · simp [p.items_eq]
    · exact (hbetween e).mpr ⟨p.start, hpast⟩
    · refine (hbetween b).mpr ⟨beforeLeft_mono ?_ p.start, hbpast⟩
      exact (List.pairwise_cons.mp (List.pairwise_append.mp hs).2.1).1 b
        (List.mem_append_right _ (List.mem_flatMap.mpr ⟨y, hy, List.mem_of_mem_head? hb⟩))

end StartsAt

end Open

/-! ## A whole scan -/

section Scan

variable {K V : Type} {cmp : K → K → Ordering} {zeroKey : K} {Q : K → Prop} {t : BplusTree K V}
  {segs : List (Seg K V)} {leftKey rightKey : Option K} {trySlatch : PageNum → Bool}

/-- The leaves of `t`; an empty tree has none. -/
def HasLeaves (cmp : K → K → Ordering) (zeroKey : K) (Q : K → Prop) (t : BplusTree K V)
    (segs : List (Seg K V)) : Prop :=
  (t.isEmpty = true ∧ segs = []) ∨ ∃ Ls, TreeInv cmp zeroKey Q t segs Ls

/-- The bound on the calls is large enough. -/
theorem TreeShape.callsAhead_le {A B : List (Seg K V)} {x : Seg K V} {Ls : List (Level K)}
    {pre post : List (K × V)} (h : TreeShape cmp zeroKey Q t (A ++ x :: B) Ls)
    (hx : x.items = pre ++ post) : callsAhead post B ≤ t.scanCalls ∧ B.length < t.pool.pageCount := by
  have hlen := t.pool.length_lt_pageCount h.nodup fun p hp => by
    rw [page_isSome]
    exact h.isSome_body p hp
  have hsum : ∀ S : List (Seg K V), (∀ s ∈ S, s.items.length ≤ t.fileHeader.leafMaxSize) →
      (S.map fun y => y.items.length + 1).sum ≤ S.length * (t.fileHeader.leafMaxSize + 1) := by
    intro S hS
    induction S with
    | nil => simp
    | cons s S ih =>
      have hs := hS s (by simp)
      have := ih fun y hy => hS y (by simp [hy])
      rw [List.map_cons, List.sum_cons, List.length_cons, Nat.succ_mul]
      omega
  have hB := hsum B fun s hs => h.leafMax s (by simp [hs])
  have hxm := h.leafMax x (by simp)
  rw [hx, List.length_append] at hxm
  simp only [List.length_append, List.length_map, List.length_cons] at hlen
  have hmul : (B.length + 1) * (t.fileHeader.leafMaxSize + 1)
      ≤ t.pool.pageCount * (t.fileHeader.leafMaxSize + 1) := Nat.mul_le_mul_right _ (by omega)
  rw [Nat.succ_mul] at hmul
  exact ⟨by simp only [callsAhead, scanCalls]; omega, by omega⟩

variable [Std.TransCmp cmp]

omit [Std.TransCmp cmp] in
/-- From this place on the scan is open. -/
theorem openAt_of_start {A B : List (Seg K V)} {x : Seg K V} {pre post : List (K × V)} {e : K × V}
    {Ls : List (Level K)} (h : TreeShape cmp zeroKey Q t segs Ls) (rightKey : Option K)
    (p : StartsAt cmp leftKey segs A x B pre e post)
    (hpos : t.firstPosition cmp leftKey = .ok (some (x.page, pre.length))) :
    t.openAt cmp leftKey rightKey = if pastRight cmp rightKey e = true
      then .ok ⟨none, pre.length, rightKey, false⟩
      else .ok ⟨some x.page, pre.length, rightKey, false⟩ := by
  obtain rfl := p.segs_eq
  have hbody := h.leaves.body
  rw [p.items_eq] at hbody
  rw [openAt, hpos]
  simp only [bind, Except.bind, getLeaf_eq hbody, touchEnd_eq]
  split <;> rfl

omit [Std.TransCmp cmp] in
theorem nextEntries_none {retry : Bool} {s : BplusTreeScanner K} (hs : s.currentFrame = none) :
    nextEntries cmp trySlatch retry t t.scanCalls s = .ok (.recordEof, []) := by
  rw [scanCalls, nextEntries, nextEntry, hs]
  rfl

/-- **A whole scan.**  It always comes to its end.  It emits entries between the bounds, in index
    order and none twice, and emits all of them exactly if no leaf inside the range was refused. -/
theorem scanAt_spec (h : HasLeaves cmp zeroKey Q t segs) (leftKey rightKey : Option K)
    {retry : Bool} (hretry : retry = true ∨ ∀ p, trySlatch p = true) :
    ∃ (s : BplusTreeScanner K) (out : List (K × V)), t.openAt cmp leftKey rightKey = .ok s ∧
      nextEntries cmp trySlatch retry t t.scanCalls s = .ok (.recordEof, out.map Prod.snd) ∧
      out.Sublist ((segs.flatMap Seg.items).filter (betweenKeys cmp leftKey rightKey)) ∧
      (out.length = ((segs.flatMap Seg.items).filter (betweenKeys cmp leftKey rightKey)).length ↔
        ¬ RefusedInside (betweenKeys cmp leftKey rightKey) trySlatch segs) := by
  -- a scanner that does not stand on a leaf gives nothing, and then nothing is in the range
  have hnone : ∀ {s : BplusTreeScanner K}, t.openAt cmp leftKey rightKey = .ok s →
      s.currentFrame = none →
      (∀ e ∈ segs.flatMap Seg.items, betweenKeys cmp leftKey rightKey e = false) →
      ∃ (s : BplusTreeScanner K) (out : List (K × V)), t.openAt cmp leftKey rightKey = .ok s ∧
        nextEntries cmp trySlatch retry t t.scanCalls s = .ok (.recordEof, out.map Prod.snd) ∧
        out.Sublist ((segs.flatMap Seg.items).filter (betweenKeys cmp leftKey rightKey)) ∧
        (out.length = ((segs.flatMap Seg.items).filter (betweenKeys cmp leftKey rightKey)).length ↔
          ¬ RefusedInside (betweenKeys cmp leftKey rightKey) trySlatch segs) := by
    intro s hopen hs hall
    have hnil : (segs.flatMap Seg.items).filter (betweenKeys cmp leftKey rightKey) = [] :=
      List.filter_eq_nil_iff.mpr fun e he => by simp [hall e he]
    refine ⟨s, [], hopen, nextEntries_none hs, List.nil_sublist _, ?_⟩
    rw [hnil]
    refine ⟨fun _ => ?_, fun _ => rfl⟩
    rintro ⟨A, y, B, rfl, ⟨a, ha, hain⟩, -, -⟩
    rw [hall a (by simp only [List.flatMap_append]; exact List.mem_append_left _ ha)] at hain
    cases hain
  -- the empty tree, and then the tree with leaves
  rcases h with ⟨hempty, rfl⟩ | ⟨Ls, hinv⟩
  · refine hnone (s := ⟨none, 0, none, false⟩) ?_ rfl nofun
    have hpos : t.firstPosition cmp leftKey = .ok none := by
      cases leftKey with
      | none =>
        rw [firstPosition, leftMostPage, findLeafInternal, hempty]
        rfl
      | some k =>
        rw [firstPosition, findLeaf, findLeafInternal, hempty]
        rfl
    rw [openAt, hpos]
    rfl
  have h := hinv.toTreeShape
  rcases firstPosition_spec h leftKey with ⟨hall, hpos⟩ | ⟨A, x, B, pre, e, post, p, hpos⟩
  · refine hnone (s := ⟨none, 0, none, false⟩) ?_ rfl fun e he => by
      simp [betweenKeys, hall e he]
    rw [openAt, hpos]
    rfl
  have hs := h.sorted_entries
  have hopen := openAt_of_start h rightKey p hpos
  cases hpast : pastRight cmp rightKey e with
  | true =>
    rw [hpast, if_pos rfl] at hopen
    refine hnone hopen rfl fun b hb => ?_
    rw [p.entries_eq] at hb hs
    rcases List.mem_append.mp hb with hb | hb
    · simp [betweenKeys, p.before b hb]
    · have hmono := pastRight_mono rightKey (List.pairwise_append.mp hs).2.1
      rcases List.mem_cons.mp hb with rfl | hb
      · simp [betweenKeys, hpast]
      · simp [betweenKeys, (List.pairwise_cons.mp hmono).1 b hb hpast]
  | false =>
    rw [hpast, if_neg Bool.false_ne_true] at hopen
    have hmono : (post ++ B.flatMap Seg.items).Pairwise fun a b =>
        pastRight cmp rightKey a = true → pastRight cmp rightKey b = true := by
      have hs' := hs
      rw [p.entries_eq] at hs'
      exact pastRight_mono rightKey (List.pairwise_cons.mp (List.pairwise_append.mp hs').2.1).2
    obtain rfl := p.segs_eq
    obtain ⟨hsub, hlen⟩ := scanned_spec trySlatch B post (pre.length + 1) hmono
      fun y hy hn => h.fenced.nonempty y (by simp [hy]) (by simp [Seg.keys, hn])
    obtain ⟨hcalls, hpages⟩ := h.callsAhead_le p.items_eq
    refine ⟨_, e :: scanned (pastRight cmp rightKey) trySlatch post (pre.length + 1) B, hopen, ?_,
      ?_, ?_⟩
    · -- the first call emits the entry the scanner was placed on
      obtain ⟨c, hc⟩ : ∃ c, t.scanCalls = c + 2 := by
        simp only [callsAhead, List.length_cons] at hcalls
        exact ⟨t.scanCalls - 2, by omega⟩
      have hbody := h.leaves.body
      rw [p.items_eq] at hbody
      have hfirst : t.nextEntry cmp trySlatch ⟨some x.page, pre.length, rightKey, false⟩
          = .ok (.success, some e.2, ⟨some x.page, pre.length, rightKey, true⟩) := by
        rw [nextEntry]
        simp only [bind, Except.bind, getLeaf_eq hbody, fetchItem_eq]
        rfl
      rw [hc, nextEntries_succ, hfirst]
      change (nextEntries cmp trySlatch retry t (c + 1) _ >>= _) = _
      rw [nextEntries_succ]
      have hleft : callsAhead post B ≤ c + 1 := by
        simp only [callsAhead, List.length_cons] at hcalls ⊢
        omega
      have hrest : t.nextEntryLoop cmp trySlatch t.pool.pageCount
          ⟨some x.page, pre.length + 1, rightKey, true⟩ >>= afterCall cmp trySlatch retry t c
          = .ok (.recordEof, _) :=
        nextEntryLoop_spec rightKey hretry B post (pre ++ [e]) x (pre.length + 1) t.pool.pageCount c
          (leafChain_append.mp h.leaves).2 hpages hpages hleft
          (Or.inl ⟨by simp [p.items_eq], by simp⟩)
      change ((t.nextEntryLoop cmp trySlatch t.pool.pageCount
        ⟨some x.page, pre.length + 1, rightKey, true⟩ >>= _) >>= _) = _
      rw [hrest]
      rfl
    · rw [p.filter_eq hs, List.cons_append, List.filter_cons_of_pos (by simp [hpast])]
      exact hsub.cons_cons e
    · rw [p.filter_eq hs, List.cons_append, List.filter_cons_of_pos (by simp [hpast]),
        p.refusedInside_iff hs hpast, not_not, ← hlen]
      simp

end Scan

end Miniob.Index
