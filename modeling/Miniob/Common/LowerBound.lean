/-
  `common::lower_bound` (deps/common/lang/lower_bound.h): the binary search under every B+ tree
  lookup.

  The C++ template walks a random-access range with iterators and asks a three-way comparator
  for the sign of `comp(*iter, val)`.  Here the range is its length and the comparator is the
  function `comp : Nat → Ordering` that answers for the element at a given offset, so the same
  definition serves leaf items, internal items (where the search skips item 0) and anything else
  that can be indexed.

  The loop stops early on an equal element, which is only right when "数组中的元素都不相等" (no two
  elements are equal), as the header asks.  `lowerBound_spec` states what comes out under exactly
  that assumption, for any comparator answers: no order on the elements is mentioned.
-/
import Mathlib.Data.List.Basic

namespace Miniob.Common

/-! ## The loop -/

/-- The `while (last_count > 0)` loop.  The first argument bounds the number of iterations;
    every iteration shrinks `last_count`, so `count` of them are enough. -/
def lowerBoundLoop (comp : Nat → Ordering) : Nat → Nat → Nat → Nat × Bool
  | 0, first, _ => (first, false)
  | fuel + 1, first, last_count =>
    if last_count > 0 then
      let step := last_count / 2
      let iter := first + step
      match comp iter with
      | .eq => (iter, true)
      | .lt => lowerBoundLoop comp fuel (iter + 1) (last_count - (step + 1))
      | .gt => lowerBoundLoop comp fuel first step
    else (first, false)

/-- `lower_bound(first, last, val, comp, &found)` as offset from `first` and the found flag. -/
def lowerBound (comp : Nat → Ordering) (count : Nat) : Nat × Bool :=
  lowerBoundLoop comp count 0 count

/-- The loop invariant: the answer `n` stays inside the window `[first, first + last_count]`, and
    once the right end has moved off `count` it sits on an element known to be greater. -/
theorem lowerBoundLoop_spec {comp : Nat → Ordering} {n count : Nat}
    (hlt : ∀ i, i < n → comp i = .lt) (hge : n < count → comp n ≠ .lt)
    (hgt : ∀ i, n < i → i < count → comp i = .gt) :
    ∀ fuel first last_count, last_count ≤ fuel → first ≤ n → n ≤ first + last_count →
      first + last_count ≤ count → (n = first + last_count → n < count → comp n = .gt) →
      lowerBoundLoop comp fuel first last_count = (n, decide (n < count ∧ comp n = .eq)) := by
  intro fuel
  induction fuel with
  | zero =>
    intro first last_count hf h1 h2 h3 h4
    obtain rfl : first = n := by omega
    have hn : ¬ (first < count ∧ comp first = .eq) := by
      rintro ⟨hc, he⟩
      rw [h4 (by omega) hc] at he
      cases he
    simp [lowerBoundLoop, hn]
  | succ fuel ih =>
    intro first last_count hf h1 h2 h3 h4
    by_cases hpos : last_count > 0
    · have hstep : last_count / 2 < last_count := Nat.div_lt_self hpos (by omega)
      rcases hc : comp (first + last_count / 2) with _ | _ | _
      · -- the element in the middle is smaller: the answer is strictly to its right
        have hlo : first + last_count / 2 < n := by
          rcases Nat.lt_trichotomy (first + last_count / 2) n with h | h | h
          · exact h
          · exact absurd (h ▸ hc) (hge (by omega))
          · rw [hgt _ h (by omega)] at hc
            cases hc
        simp only [lowerBoundLoop, hpos, if_true, hc]
        exact ih _ _ (by omega) (by omega) (by omega) (by omega)
          (fun h hn => h4 (by omega) hn)
      · -- equal: elements are pairwise distinct, so this is the answer itself
        have hn : first + last_count / 2 = n := by
          rcases Nat.lt_trichotomy (first + last_count / 2) n with h | h | h
          · rw [hlt _ h] at hc
            cases hc
          · exact h
          · rw [hgt _ h (by omega)] at hc
            cases hc
        have hlc : n < count := by omega
        rw [hn] at hc
        simp only [lowerBoundLoop, hpos, if_true, hn, hc, hlc, true_and, decide_true]
      · -- greater: the answer is at the middle or to its left
        have hhi : n ≤ first + last_count / 2 := by
          rcases Nat.lt_or_ge (first + last_count / 2) n with h | h
          · rw [hlt _ h] at hc
            cases hc
          · exact h
        simp only [lowerBoundLoop, hpos, if_true, hc]
        exact ih _ _ (by omega) h1 hhi (by omega) (fun h _ => h ▸ hc)
    · obtain rfl : first = n := by omega
      have hn : ¬ (first < count ∧ comp first = .eq) := by
        rintro ⟨hlc, he⟩
        rw [h4 (by omega) hlc] at he
        cases he
      simp [lowerBoundLoop, hpos, hn]

/-- **What `lower_bound` returns.**  If the first `n` answers are "less", the one at `n` is not,
    and everything after it is "greater", the search returns `n` and reports whether the element
    there is equal. -/
theorem lowerBound_spec {comp : Nat → Ordering} {n count : Nat} (hn : n ≤ count)
    (hlt : ∀ i, i < n → comp i = .lt) (hge : n < count → comp n ≠ .lt)
    (hgt : ∀ i, n < i → i < count → comp i = .gt) :
    lowerBound comp count = (n, decide (n < count ∧ comp n = .eq)) :=
  lowerBoundLoop_spec hlt hge hgt count 0 count (Nat.le_refl _) (Nat.zero_le _) (by omega)
    (by omega) (fun h hc => by omega)

/-! ## Searching a list of items -/

/-- The comparator's answer for the item at offset `i`. -/
def compAt {α : Type} (f : α → Ordering) (xs : List α) (i : Nat) : Ordering :=
  match xs[i]? with
  | some a => f a
  | none => .gt

/-- `lower_bound` over the items of `xs`, `f` being the comparison against the searched value. -/
def lowerBoundList {α : Type} (f : α → Ordering) (xs : List α) : Nat × Bool :=
  lowerBound (compAt f xs) xs.length

/-- On `pre ++ post`, split where the items stop being smaller, the search returns the length of
    `pre` and whether `post` starts with an equal item. -/
theorem lowerBoundList_append {α : Type} {f : α → Ordering} {pre post : List α}
    (hpre : ∀ a ∈ pre, f a = .lt) (hhead : ∀ a ∈ post.head?, f a ≠ .lt)
    (htail : ∀ a ∈ post.tail, f a = .gt) :
    lowerBoundList f (pre ++ post) = (pre.length, post.head?.any (fun a => f a == .eq)) := by
  have hcomp : ∀ i, compAt f (pre ++ post) (pre.length + i) = compAt f post i := by
    intro i
    rw [compAt, List.getElem?_append_right (by omega), Nat.add_sub_cancel_left, compAt]
  rw [lowerBoundList, lowerBound_spec (n := pre.length)]
  · have h0 := hcomp 0
    rw [Nat.add_zero] at h0
    cases post with
    | nil => simp
    | cons b bs =>
      rw [h0]
      simp only [compAt, List.length_append, List.length_cons, List.getElem?_cons_zero,
        List.head?_cons, Option.any_some]
      cases f b <;> simp
  · simp
  · intro i hi
    have hget : (pre ++ post)[i]? = some pre[i] := by
      rw [List.getElem?_append_left hi, List.getElem?_eq_getElem hi]
    simp only [compAt, hget]
    exact hpre _ (List.getElem_mem hi)
  · intro hlen
    have h0 := hcomp 0
    rw [Nat.add_zero] at h0
    rw [h0]
    cases post with
    | nil => simp at hlen
    | cons b bs => exact hhead b (by simp)
  · intro i hi hlen
    obtain ⟨j, rfl⟩ : ∃ j, i = pre.length + (j + 1) := ⟨i - pre.length - 1, by omega⟩
    rw [hcomp]
    cases post with
    | nil =>
      rw [List.append_nil] at hlen
      omega
    | cons b bs =>
      have hj : j < bs.length := by simp at hlen; omega
      simp only [compAt, List.getElem?_cons_succ, List.getElem?_eq_getElem hj]
      exact htail _ (List.getElem_mem hj)

example : lowerBoundList (fun x => compare x 4) [1, 3, 5, 7] = (2, false) := by decide

/-- Two strictly sorted lists with the same members are the same list. -/
theorem eq_of_sorted_of_mem_iff {α K : Type} {cmp : K → K → Ordering} [Std.OrientedCmp cmp]
    (key : α → K) {xs ys : List α} (hx : xs.Pairwise fun a b => cmp (key a) (key b) = .lt)
    (hy : ys.Pairwise fun a b => cmp (key a) (key b) = .lt) (h : ∀ a, a ∈ xs ↔ a ∈ ys) : xs = ys := by
  have hnodup : ∀ {zs : List α}, (zs.Pairwise fun a b => cmp (key a) (key b) = .lt) → zs.Nodup :=
    fun hz => hz.imp fun {a b} hab hne => by
      rw [hne, @Std.ReflCmp.compare_self _ cmp] at hab
      cases hab
  have hperm := (List.perm_ext_iff_of_nodup (hnodup hx) (hnodup hy)).mpr h
  refine hperm.eq_of_pairwise (fun a b _ _ hab hba => ?_) hx hy
  rw [@Std.OrientedCmp.eq_swap _ cmp, hba] at hab
  cases hab

end Miniob.Common
