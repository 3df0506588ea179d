/-
  `common::lower_bound` as the template it is, with `BinaryIterator` (deps/common/lang/lower_bound.h)
  and the lookup of a leaf (`LeafIndexNodeHandler::lookup` in storage/index/bplus_tree.cpp).

  1. `Iterators` is what the template uses of an iterator type; `RandomAccess` is what a range of
     such iterators promises.  `Iterators.lowerBound` recurses on the remaining count.
  2. `lowerBoundLoop_at`: on such a range the template does what `Common.lowerBound` does with
     offsets.
  3. `Located` is the position the search gives in a sorted range.  An equal element ends the search
     at once, so among several equal elements any one may come out; the first position that is not
     less is promised only where no two elements equal the value.
  4. The items of a node are a range of `BinaryIterator`s for every item size, so `lookup` finds the
     same position.
-/
import Mathlib.Algebra.Group.Nat.Defs
import Miniob.Common.LowerBound

namespace Miniob.Common

/-! ## Iterators -/

/-- What `lower_bound` uses of an iterator: `*iter`, `advance(iter, n)`, `++iter` and
    `distance(first, last)`. -/
structure Iterators (I T : Type) where
  deref : I → T
  advance : I → Nat → I
  next : I → I
  distance : I → I → Nat

namespace Iterators

variable {I T : Type} (it : Iterators I T) (comp : T → T → Ordering)

/-- The `n` positions from `first` on and the end behind them. -/
structure RandomAccess (first : I) (n : Nat) : Prop where
  advance_zero : it.advance first 0 = first
  advance_add : ∀ a b, a + b ≤ n → it.advance (it.advance first a) b = it.advance first (a + b)
  next_advance : ∀ a, a < n → it.next (it.advance first a) = it.advance first (a + 1)
  distance_advance : ∀ a, a ≤ n → it.distance first (it.advance first a) = a

/-- The `while (last_count > 0)` loop. -/
def lowerBoundLoop (val : T) (first : I) (lastCount : Nat) : I × Bool :=
  if lastCount > 0 then
    let step := lastCount / 2
    let iter := it.advance first step
    match comp (it.deref iter) val with
    | .eq => (iter, true)
    | .lt => lowerBoundLoop val (it.next iter) (lastCount - (step + 1))
    | .gt => lowerBoundLoop val first step
  else (first, false)
termination_by lastCount
decreasing_by all_goals omega

/-- `lower_bound(first, last, val, comp, &found)`. -/
def lowerBound (first last : I) (val : T) : I × Bool :=
  it.lowerBoundLoop comp val first (it.distance first last)

/-- The element at an offset. -/
def elem (first : I) (i : Nat) : T := it.deref (it.advance first i)

variable {it comp}

/-- The template is the search over offsets. -/
theorem lowerBoundLoop_at {first : I} {n : Nat} (hrange : it.RandomAccess first n) (val : T) :
    ∀ fuel a lastCount, lastCount ≤ fuel → a + lastCount ≤ n →
      it.lowerBoundLoop comp val (it.advance first a) lastCount
        = (it.advance first
            (Common.lowerBoundLoop (fun i => comp (it.elem first i) val) fuel a lastCount).1,
          (Common.lowerBoundLoop (fun i => comp (it.elem first i) val) fuel a lastCount).2) := by
  intro fuel
  induction fuel with
  | zero =>
    intro a lastCount hfuel _
    obtain rfl : lastCount = 0 := by omega
    rw [lowerBoundLoop, Common.lowerBoundLoop, if_neg (by omega)]
  | succ fuel ih =>
    intro a lastCount hfuel hin
    rw [lowerBoundLoop, Common.lowerBoundLoop]
    by_cases hpos : lastCount > 0
    · have hstep : lastCount / 2 < lastCount := Nat.div_lt_self hpos (by omega)
      rw [if_pos hpos, if_pos hpos]
      dsimp only
      rw [hrange.advance_add a _ (by omega), hrange.next_advance _ (by omega)]
      cases hc : comp (it.elem first (a + lastCount / 2)) val with
      | eq =>
        rw [elem] at hc
        rw [hc]
      | lt =>
        rw [elem] at hc
        rw [hc]
        exact ih _ _ (by omega) (by omega)
      | gt =>
        rw [elem] at hc
        rw [hc]
        exact ih _ _ (by omega) (by omega)
    · rw [if_neg hpos, if_neg hpos]

theorem lowerBound_at {first : I} {n : Nat} (hrange : it.RandomAccess first n) (val : T) :
    it.lowerBound comp first (it.advance first n) val
      = (it.advance first (Common.lowerBound (fun i => comp (it.elem first i) val) n).1,
        (Common.lowerBound (fun i => comp (it.elem first i) val) n).2) := by
  have hloop := @lowerBoundLoop_at _ _ _ comp _ _ hrange val n 0 n (Nat.le_refl n) (by omega)
  rw [hrange.advance_zero] at hloop
  rw [lowerBound, hrange.distance_advance n (Nat.le_refl n)]
  exact hloop

end Iterators

/-- Pointers to elements that lie next to each other, as the iterators of a `vector` are. -/
def pointers {T : Type} (elems : Nat → T) : Iterators Nat T where
  deref p := elems p
  advance p n := p + n
  next p := p + 1
  distance first last := last - first

theorem pointers_randomAccess {T : Type} (elems : Nat → T) (first n : Nat) :
    (pointers elems).RandomAccess first n where
  advance_zero := rfl
  advance_add a b _ := Nat.add_assoc first a b
  next_advance a _ := Nat.add_assoc first a 1
  distance_advance a _ := Nat.add_sub_cancel_left first a

/-! ## Sorted ranges -/

/-- The comparator's answers go from less over equal to greater. -/
def Ascending (comp : Nat → Ordering) (n : Nat) : Prop :=
  ∀ i j, i < j → j < n → (comp j = .lt → comp i = .lt) ∧ (comp i = .gt → comp j = .gt)

/-- In a sorted range the answers ascend. -/
theorem ascending_of_sorted {T : Type} {comp : T → T → Ordering} [Std.TransCmp comp] {elem : Nat → T}
    {n : Nat} (hsorted : ∀ i j, i < j → j < n → (comp (elem i) (elem j)).isLE) (val : T) :
    Ascending (fun i => comp (elem i) val) n := by
  intro i j hij hj
  have hle := hsorted i j hij hj
  constructor
  · intro hlt
    exact Std.TransCmp.lt_of_isLE_of_lt hle hlt
  · intro hgt
    exact Std.TransCmp.gt_of_isGE_of_gt (Std.OrientedCmp.isGE_of_isLE hle) hgt

/-- The search does not leave its range. -/
theorem lowerBoundLoop_le (comp : Nat → Ordering) : ∀ fuel first lastCount,
    (lowerBoundLoop comp fuel first lastCount).1 ≤ first + lastCount := by
  intro fuel
  induction fuel with
  | zero =>
    intro first lastCount
    exact Nat.le_add_right first lastCount
  | succ fuel ih =>
    intro first lastCount
    rw [lowerBoundLoop]
    by_cases hpos : lastCount > 0
    · have hstep : lastCount / 2 < lastCount := Nat.div_lt_self hpos (by omega)
      have hright := ih (first + lastCount / 2 + 1) (lastCount - (lastCount / 2 + 1))
      have hleft := ih first (lastCount / 2)
      rw [if_pos hpos]
      dsimp only
      cases comp (first + lastCount / 2) with
      | eq =>
        dsimp only
        omega
      | lt =>
        dsimp only
        omega
      | gt =>
        dsimp only
        omega
    · rw [if_neg hpos]
      exact Nat.le_add_right first lastCount

/-- Only the answers inside the range matter. -/
theorem lowerBoundLoop_congr {comp comp' : Nat → Ordering} {n : Nat}
    (h : ∀ i, i < n → comp i = comp' i) : ∀ fuel first lastCount, first + lastCount ≤ n →
      lowerBoundLoop comp fuel first lastCount = lowerBoundLoop comp' fuel first lastCount := by
  intro fuel
  induction fuel with
  | zero =>
    intro first lastCount _
    rfl
  | succ fuel ih =>
    intro first lastCount hin
    rw [lowerBoundLoop, lowerBoundLoop]
    by_cases hpos : lastCount > 0
    · have hstep : lastCount / 2 < lastCount := Nat.div_lt_self hpos (by omega)
      rw [if_pos hpos, if_pos hpos]
      dsimp only
      rw [h _ (by omega), ih _ _ (by omega), ih _ _ (by omega)]
    · rw [if_neg hpos, if_neg hpos]

theorem lowerBound_congr {comp comp' : Nat → Ordering} {n : Nat}
    (h : ∀ i, i < n → comp i = comp' i) : lowerBound comp n = lowerBound comp' n :=
  lowerBoundLoop_congr h n 0 n (by omega)

/-- What is known when the loop ends: an equal element, or the border between less and greater. -/
def Settled (comp : Nat → Ordering) (n : Nat) (r : Nat × Bool) : Prop :=
  r.1 ≤ n ∧ (r.2 = true → r.1 < n ∧ comp r.1 = .eq) ∧
    (r.2 = false → (∀ i, i < r.1 → comp i = .lt) ∧ ∀ i, r.1 ≤ i → i < n → comp i = .gt)

theorem settled_of_equal {comp : Nat → Ordering} {n k : Nat} (hk : k < n) (heq : comp k = .eq) :
    Settled comp n (k, true) := ⟨Nat.le_of_lt hk, fun _ => ⟨hk, heq⟩, nofun⟩

theorem settled_of_border {comp : Nat → Ordering} {n k : Nat} (hk : k ≤ n)
    (hbelow : ∀ i, i < k → comp i = .lt) (habove : ∀ i, k ≤ i → i < n → comp i = .gt) :
    Settled comp n (k, false) := ⟨hk, nofun, fun _ => ⟨hbelow, habove⟩⟩

/-- What is in front of the range is less, and what is behind it is greater. -/
theorem lowerBoundLoop_settled {comp : Nat → Ordering} {n : Nat} (hasc : Ascending comp n) :
    ∀ fuel first lastCount, lastCount ≤ fuel → first + lastCount ≤ n →
      (∀ i, i < first → comp i = .lt) → (∀ i, first + lastCount ≤ i → i < n → comp i = .gt) →
      Settled comp n (lowerBoundLoop comp fuel first lastCount) := by
  intro fuel
  induction fuel with
  | zero =>
    intro first lastCount hfuel hin hbelow habove
    rw [lowerBoundLoop]
    exact settled_of_border (by omega) hbelow fun i hi => habove i (by omega)
  | succ fuel ih =>
    intro first lastCount hfuel hin hbelow habove
    rw [lowerBoundLoop]
    by_cases hpos : lastCount > 0
    · have hstep : lastCount / 2 < lastCount := Nat.div_lt_self hpos (by omega)
      rw [if_pos hpos]
      dsimp only
      cases hc : comp (first + lastCount / 2) with
      | eq => exact settled_of_equal (by omega) hc
      | lt =>
        -- the middle and everything before it is less
        refine ih _ _ (by omega) (by omega) (fun i hi => ?_) (fun i hi => habove i (by omega))
        rcases Nat.lt_or_eq_of_le (Nat.le_of_lt_succ hi) with hlt | heq
        · exact (hasc i _ hlt (by omega)).1 hc
        · rw [heq]
          exact hc
      | gt =>
        -- the middle and everything behind it is greater
        refine ih _ _ (by omega) (by omega) hbelow fun i hi hn => ?_
        rcases Nat.lt_or_eq_of_le hi with hlt | heq
        · exact (hasc _ i hlt hn).2 hc
        · rw [← heq]
          exact hc
    · rw [if_neg hpos]
      exact settled_of_border (by omega) hbelow fun i hi => habove i (by omega)

theorem lowerBound_settled {comp : Nat → Ordering} {n : Nat} (hasc : Ascending comp n) :
    Settled comp n (lowerBound comp n) :=
  lowerBoundLoop_settled hasc n 0 n (Nat.le_refl n) (by omega) (fun i hi => by omega)
    (fun i hi hn => by omega)

/-- The position `k` with the flag `found` for the answers `comp` of `n` elements. -/
structure Located (comp : Nat → Ordering) (n k : Nat) (found : Bool) : Prop where
  le_end : k ≤ n
  /-- The flag is about the element at the position. -/
  found_iff : found = true ↔ k < n ∧ comp k = .eq
  /-- It is set as soon as there is an equal element. -/
  found_iff_exists : found = true ↔ ∃ i, i < n ∧ comp i = .eq
  not_less : k < n → comp k ≠ .lt
  /-- Without an equal element: the first that is not less. -/
  before_of_not_found : found = false → ∀ i, i < k → comp i = .lt
  /-- With one equal element: the first that is not less. -/
  before_of_unique : (∀ i j, i < n → j < n → comp i = .eq → comp j = .eq → i = j) →
    ∀ i, i < k → comp i = .lt

/-- When the range is empty the place has been found. -/
theorem Settled.located {comp : Nat → Ordering} {n : Nat} {r : Nat × Bool} (hasc : Ascending comp n)
    (h : Settled comp n r) : Located comp n r.1 r.2 := by
  obtain ⟨hle, hfound, hnot⟩ := h
  cases hr : r.2 with
  | true =>
    obtain ⟨hk, heq⟩ := hfound hr
    refine ⟨hle, ⟨fun _ => ⟨hk, heq⟩, fun _ => rfl⟩, ⟨fun _ => ⟨_, hk, heq⟩, fun _ => rfl⟩,
      fun _ hlt => ?_, nofun, fun hunique i hi => ?_⟩
    · rw [heq] at hlt
      cases hlt
    · cases hc : comp i with
      | lt => rfl
      | eq =>
        have hsame := hunique i r.1 (by omega) hk hc heq
        omega
      | gt =>
        rw [(hasc i r.1 hi hk).2 hc] at heq
        cases heq
  | false =>
    obtain ⟨hbelow, habove⟩ := hnot hr
    have hno : ∀ i, i < n → comp i ≠ .eq := by
      intro i hi heq
      by_cases hik : i < r.1
      · rw [hbelow i hik] at heq
        cases heq
      · rw [habove i (by omega) hi] at heq
        cases heq
    refine ⟨hle, ⟨nofun, fun hk => absurd hk.2 (hno _ hk.1)⟩,
      ⟨nofun, fun hex => ?_⟩, fun hk hlt => ?_, fun _ => hbelow, fun _ => hbelow⟩
    · obtain ⟨i, hi, heq⟩ := hex
      exact absurd heq (hno i hi)
    · rw [habove _ (Nat.le_refl _) hk] at hlt
      cases hlt

/-! ## Items of a node -/

/-- `BinaryIterator<char>`. -/
structure BinaryIterator where
  itemNum : Nat
  data : Int

namespace BinaryIterator

/-- A count as the `int` that `operator+=` takes. -/
def toInt (n : Int) : Int := n.bmod (2 ^ 32)

/-- `operator+=`. -/
def addAssign (iter : BinaryIterator) (n : Int) : BinaryIterator :=
  { iter with data := iter.data + iter.itemNum * toInt n }

/-- `operator-`, for iterators in order. -/
def sub (left right : BinaryIterator) : Nat := (left.data - right.data).toNat / left.itemNum

/-- Dereferencing an iterator gives the pointer. -/
def iterators : Iterators BinaryIterator Int where
  deref iter := iter.data
  advance iter n := iter.addAssign n
  next iter := iter.addAssign 1
  distance first last := last.sub first

theorem toInt_of_lt {n : Nat} (h : n < 2 ^ 31) : toInt n = n := by
  unfold toInt
  rw [Int.bmod_def]
  omega

theorem addAssign_addAssign (iter : BinaryIterator) {a b : Nat} (h : a + b < 2 ^ 31) :
    (iter.addAssign a).addAssign b = iter.addAssign (a + b : Nat) := by
  rw [addAssign, addAssign, addAssign, toInt_of_lt h, toInt_of_lt (n := a) (by omega),
    toInt_of_lt (n := b) (by omega), Int.natCast_add, Int.mul_add, Int.add_assoc]

theorem addAssign_sub {iter : BinaryIterator} (hsize : 0 < iter.itemNum) {a : Nat} (h : a < 2 ^ 31) :
    (iter.addAssign a).sub iter = a := by
  rw [addAssign, sub, toInt_of_lt h]
  dsimp only
  rw [Int.add_comm, Int.add_sub_cancel, ← Int.natCast_mul, Int.toNat_natCast]
  exact Nat.mul_div_cancel_left a hsize

/-- Fewer than 2^31 items of any size are a range of iterators. -/
theorem randomAccess {iter : BinaryIterator} {n : Nat} (hsize : 0 < iter.itemNum) (hn : n < 2 ^ 31) :
    iterators.RandomAccess iter n where
  advance_zero := by
    show iter.addAssign 0 = iter
    rw [addAssign, show toInt 0 = 0 by rfl, Int.mul_zero, Int.add_zero]
  advance_add a b hab := addAssign_addAssign iter (by omega)
  next_advance a ha := addAssign_addAssign iter (b := 1) (by omega)
  distance_advance a ha := addAssign_sub hsize (by omega)

end BinaryIterator

/-- Where the items of a node are: the first key that is searched, the size of an item and how many
    items follow. -/
structure NodeItems where
  first : Int
  itemSize : Nat
  size : Nat
  itemSize_pos : 0 < itemSize
  /-- `size()` is an `int`. -/
  size_lt : size < 2 ^ 31

namespace NodeItems

variable (items : NodeItems)

/-- `__key_at`. -/
def keyAt (index : Nat) : Int := items.first + items.itemSize * index

/-- `LeafIndexNodeHandler::lookup`; the comparator reads the keys behind two pointers. -/
def lookup (comparator : Int → Int → Ordering) (key : Int) : Nat × Bool :=
  let iterBegin := BinaryIterator.mk items.itemSize (items.keyAt 0)
  let iterEnd := BinaryIterator.mk items.itemSize (items.keyAt items.size)
  let iter := BinaryIterator.iterators.lowerBound comparator iterBegin iterEnd key
  (iter.1.sub iterBegin, iter.2)

/-- The iterator to the first item. -/
def iterBegin : BinaryIterator := ⟨items.itemSize, items.first⟩

variable {items}

theorem advance_iterBegin {i : Nat} (h : i ≤ items.size) :
    BinaryIterator.iterators.advance items.iterBegin i = ⟨items.itemSize, items.keyAt i⟩ := by
  have hlt := Nat.lt_of_le_of_lt h items.size_lt
  show items.iterBegin.addAssign i = _
  rw [BinaryIterator.addAssign, BinaryIterator.toInt_of_lt hlt]
  rfl

theorem elem_eq {i : Nat} (h : i ≤ items.size) :
    BinaryIterator.iterators.elem items.iterBegin i = items.keyAt i := by
  rw [Iterators.elem, advance_iterBegin h]
  rfl

/-- The lookup is the search over the keys of the node. -/
theorem lookup_eq (comparator : Int → Int → Ordering) (key : Int) :
    items.lookup comparator key
      = lowerBound (fun i => comparator (items.keyAt i) key) items.size := by
  have hrange := @BinaryIterator.randomAccess items.iterBegin _ items.itemSize_pos items.size_lt
  have hat := @Iterators.lowerBound_at _ _ _ comparator _ _ hrange key
  have hkeys : ∀ i, i < items.size →
      comparator (BinaryIterator.iterators.elem items.iterBegin i) key
        = comparator (items.keyAt i) key := fun i hi => by rw [elem_eq (Nat.le_of_lt hi)]
  rw [lowerBound_congr hkeys, advance_iterBegin (Nat.le_refl _)] at hat
  have hbegin : BinaryIterator.mk items.itemSize (items.keyAt 0) = items.iterBegin := by
    simp [keyAt, iterBegin]
  have hle := lowerBoundLoop_le (fun i => comparator (items.keyAt i) key) items.size 0 items.size
  rw [lookup, hbegin, hat]
  apply Prod.ext
  · exact hrange.distance_advance _ (by rwa [Nat.zero_add] at hle)
  · rfl

end NodeItems

/-! ## What comes out -/

/-- **`lower_bound` in a sorted range.**  In any sorted range of a random-access iterator, duplicates
    included, the search ends at a position that is `Located`; so does the lookup among the items of a
    node, whatever their size. -/
theorem lower_bound_located {T : Type} (comp : T → T → Ordering) [Std.TransCmp comp] :
    (∀ (I : Type) (it : Iterators I T) (first : I) (n : Nat) (val : T), it.RandomAccess first n →
      (∀ i j, i < j → j < n → (comp (it.elem first i) (it.elem first j)).isLE) →
      ∃ k found, it.lowerBound comp first (it.advance first n) val = (it.advance first k, found) ∧
        Located (fun i => comp (it.elem first i) val) n k found) ∧
    (∀ (items : NodeItems) (keys : Int → T) (key : Int),
      (∀ i j, i < j → j < items.size →
        (comp (keys (items.keyAt i)) (keys (items.keyAt j))).isLE) →
      ∃ k found, items.lookup (fun p q => comp (keys p) (keys q)) key = (k, found) ∧
        Located (fun i => comp (keys (items.keyAt i)) (keys key)) items.size k found) := by
  constructor
  · intro I it first n val hrange hsorted
    have hasc := ascending_of_sorted hsorted val
    exact ⟨_, _, Iterators.lowerBound_at hrange val, (lowerBound_settled hasc).located hasc⟩
  · intro items keys key hsorted
    have hasc := ascending_of_sorted hsorted (keys key)
    exact ⟨_, _, NodeItems.lookup_eq _ key, (lowerBound_settled hasc).located hasc⟩

/-- Three items of 16 bytes. -/
def threeItems : NodeItems := ⟨64, 16, 3, by decide, by decide⟩

/-- The number 2 is found, and 80 is not. -/
theorem lower_bound_located_ints :
    (∃ k found, (pointers fun i => (i : Int)).lowerBound compare 0 4 2 = (k, found) ∧
      Located (fun i => compare ((pointers fun i => (i : Int)).elem 0 i) 2) 4 k found) ∧
    ∃ k found, threeItems.lookup (fun p q => compare p q) 80 = (k, found) ∧
      Located (fun i => compare (threeItems.keyAt i) 80) threeItems.size k found := by
  have hle : ∀ {a b : Int}, a ≤ b → (compare a b).isLE := fun h => Std.isLE_compare.mpr h
  constructor
  · obtain ⟨k, found, heq, hloc⟩ := (lower_bound_located (T := Int) compare).1 Nat
      (pointers fun i => (i : Int)) 0 4 2 (pointers_randomAccess _ 0 4) fun i j hij _ => hle (by
        show ((0 + i : Nat) : Int) ≤ ((0 + j : Nat) : Int)
        omega)
    refine ⟨k, found, ?_, hloc⟩
    rw [show (pointers fun i => (i : Int)).advance 0 k = k from Nat.zero_add k] at heq
    exact heq
  · exact (lower_bound_located (T := Int) compare).2 threeItems id 80 fun i j hij _ => hle (by
      show (64 : Int) + (16 : Nat) * (i : Int) ≤ 64 + (16 : Nat) * (j : Int)
      omega)

/-- The first position that is not less need not come out: of two equal elements the search meets
    the second one. -/
theorem lower_bound_not_first :
    ¬ ∀ (elems : Nat → Int) (n : Nat) (val : Int),
      (∀ i j, i < j → j < n → (compare (elems i) (elems j)).isLE) →
      ∃ k found, (pointers elems).lowerBound compare 0 n val = (k, found) ∧
        (∀ i, i < k → compare (elems i) val = .lt) ∧ (k < n → compare (elems k) val ≠ .lt) := by
  intro h
  obtain ⟨k, found, heq, hbefore, -⟩ := h (fun _ => 1) 2 1 fun i j _ _ => by decide
  have hat := @Iterators.lowerBound_at _ _ _ compare _ _ (pointers_randomAccess (fun _ => (1 : Int)) 0 2) 1
  have hsearch : lowerBound (fun _ => compare (1 : Int) 1) 2 = (1, true) := by decide
  have hk : k = 1 := by
    have hpos := congrArg Prod.fst (heq.symm.trans hat)
    rw [show (fun i => compare ((pointers fun _ => (1 : Int)).elem 0 i) 1) = fun _ => compare (1 : Int) 1
      from rfl, hsearch] at hpos
    exact hpos
  have hless := hbefore 0 (by omega)
  exact absurd hless (by decide)

end Miniob.Common
