/-
  Doubly linked lists, for any kind of address: `prev` and `next` are functions, and none is the null
  pointer.

  1. `Chain prev next b xs e`: the addresses `xs` are linked in both directions, with `b` in front of the
     first and `e` behind the last.
  2. `chain_append` takes a chain apart at any place, `Chain.congr` is the frame rule, and
     `Chain.setStart` and `Chain.setEnd` change what lies at the two ends.
  3. From these: a node can be taken out anywhere (`Chain.unlink`) and put in front (`Chain.push`).
-/
import Mathlib.Data.List.Basic
import Mathlib.Logic.Function.Basic

namespace Miniob.Common

variable {A : Type} {prev next prev' next' : A → Option A} {b e : Option A} {xs ys : List A} {a : A}

/-- The addresses are linked, between `b` and `e`. -/
def Chain (prev next : A → Option A) : Option A → List A → Option A → Prop
  | _, [], _ => True
  | b, a :: xs, e => prev a = b ∧ next a = xs.head?.or e ∧ Chain prev next (some a) xs e

theorem chain_append : ∀ {xs : List A} {b : Option A}, Chain prev next b (xs ++ ys) e ↔
    Chain prev next b xs (ys.head?.or e) ∧ Chain prev next (xs.getLast?.or b) ys e
  | [], b => by
    rw [List.nil_append, List.getLast?_nil, Option.none_or]
    exact (and_iff_right trivial).symm
  | a :: xs, b => by
    have hhead : (xs ++ ys).head?.or e = xs.head?.or (ys.head?.or e) := by
      rw [List.head?_append, Option.or_assoc]
    have hlast : (a :: xs).getLast?.or b = xs.getLast?.or (some a) := by
      rw [List.getLast?_cons]
      cases xs.getLast? <;> rfl
    rw [List.cons_append, Chain, Chain, hhead, hlast, chain_append, and_assoc, and_assoc]

/-- Only the links of the addresses matter. -/
theorem Chain.congr : ∀ {xs : List A} {b : Option A}, (∀ a ∈ xs, prev' a = prev a ∧ next' a = next a) →
    Chain prev next b xs e → Chain prev' next' b xs e
  | [], _, _, _ => trivial
  | a :: xs, b, h, ⟨hprev, hnext, hrest⟩ => by
    obtain ⟨hprev', hnext'⟩ := h a List.mem_cons_self
    refine ⟨hprev'.trans hprev, hnext'.trans hnext, Chain.congr (fun a' ha' => ?_) hrest⟩
    exact h a' (List.mem_cons_of_mem a ha')

/-- Read from behind, it is a chain of the same addresses the other way round. -/
theorem Chain.reverse : ∀ {xs : List A} {b : Option A}, Chain prev next b xs e →
    Chain next prev e xs.reverse b
  | [], _, _ => trivial
  | a :: xs, b, ⟨hprev, hnext, hrest⟩ => by
    rw [List.reverse_cons]
    refine chain_append.mpr ⟨hrest.reverse, ?_, hprev, trivial⟩
    rwa [List.getLast?_reverse]

theorem head?_ne_of_not_mem (h : a ∉ xs) : xs.head? ≠ some a := fun heq => h (List.mem_of_head? heq)

theorem getLast?_ne_of_not_mem (h : a ∉ xs) : xs.getLast? ≠ some a := fun heq => h (List.mem_of_getLast? heq)

variable [DecidableEq A]

/-- A write through a pointer, if it is not null. -/
def setAt (f : A → Option A) (p v : Option A) : A → Option A :=
  match p with
  | some p => Function.update f p v
  | none => f

theorem setAt_of_ne {f : A → Option A} {p v : Option A} (h : p ≠ some a) : setAt f p v a = f a := by
  cases p with
  | none => rfl
  | some p => exact Function.update_of_ne (fun heq => h (congrArg some heq.symm)) v f

theorem setAt_self {f : A → Option A} {v : Option A} : setAt f (some a) v a = v := by
  rw [setAt, Function.update_self]

/-- Another address in front of the first. -/
theorem Chain.setStart (hnodup : xs.Nodup) (h : Chain prev next b xs e) (b' : Option A) :
    Chain (setAt prev xs.head? b') next b' xs e := by
  cases xs with
  | nil => trivial
  | cons a xs =>
    obtain ⟨-, hnext, hrest⟩ := h
    refine ⟨setAt_self, hnext, hrest.congr fun a' ha' => ⟨setAt_of_ne fun heq => ?_, rfl⟩⟩
    obtain rfl := Option.some.inj heq
    exact (List.nodup_cons.mp hnodup).1 ha'

/-- Another address behind the last. -/
theorem Chain.setEnd (hnodup : xs.Nodup) (h : Chain prev next b xs e) (e' : Option A) :
    Chain prev (setAt next xs.getLast? e') b xs e' := by
  rcases List.eq_nil_or_concat xs with rfl | ⟨xs, a, rfl⟩
  · trivial
  · rw [List.concat_eq_append] at h hnodup ⊢
    obtain ⟨hbefore, hprev, -, -⟩ := chain_append.mp h
    have ha : a ∉ xs := fun hmem =>
      (List.nodup_append.mp hnodup).2.2 a hmem a (List.mem_singleton_self a) rfl
    rw [List.getLast?_concat]
    refine chain_append.mpr ⟨hbefore.congr fun a' ha' => ⟨rfl, setAt_of_ne fun heq => ?_⟩,
      hprev, setAt_self, trivial⟩
    obtain rfl := Option.some.inj heq
    exact ha ha'

/-- **A node is taken out**: its neighbours are linked to each other. -/
theorem Chain.unlink (hnodup : (xs ++ a :: ys).Nodup) (h : Chain prev next none (xs ++ a :: ys) none) :
    prev a = xs.getLast? ∧ next a = ys.head? ∧
      Chain (setAt prev ys.head? xs.getLast?) (setAt next xs.getLast? ys.head?) none (xs ++ ys) none := by
  obtain ⟨hbefore, hprev, hnext, hbehind⟩ := chain_append.mp h
  rw [Option.or_none] at hprev hnext
  obtain ⟨hxs, hays, hdisjoint⟩ := List.nodup_append.mp hnodup
  have hys := (List.nodup_cons.mp hays).2
  have hapart : ∀ c ∈ xs, c ∉ ys := fun c hc hc' => hdisjoint c hc c (List.mem_cons_of_mem a hc') rfl
  refine ⟨hprev, hnext, chain_append.mpr ?_⟩
  rw [Option.or_none, Option.or_none]
  constructor
  · refine (hbefore.setEnd hxs ys.head?).congr fun c hc => ⟨setAt_of_ne ?_, rfl⟩
    exact head?_ne_of_not_mem (hapart c hc)
  · refine (hbehind.setStart hys xs.getLast?).congr fun c hc => ⟨rfl, setAt_of_ne ?_⟩
    exact getLast?_ne_of_not_mem fun hc' => hapart c hc' hc

/-- **A node is put in front.** -/
theorem Chain.push (hnodup : xs.Nodup) (ha : a ∉ xs) (h : Chain prev next none xs none) :
    Chain (setAt (Function.update prev a none) xs.head? (some a)) (Function.update next a xs.head?)
      none (a :: xs) none := by
  have hne : ∀ c ∈ xs, c ≠ a := fun c hc heq => ha (heq ▸ hc)
  refine ⟨?_, ?_, ?_⟩
  · rw [setAt_of_ne (head?_ne_of_not_mem ha), Function.update_self]
  · rw [Function.update_self, Option.or_none]
  · refine Chain.setStart hnodup (Chain.congr (fun c hc => ⟨?_, ?_⟩) h) (some a)
    · exact Function.update_of_ne (hne c hc) none prev
    · exact Function.update_of_ne (hne c hc) xs.head? next

end Miniob.Common
