/-
  The non-unique index as a finite set of (user key, record identifier) pairs.

  `SetStep` is the specification: what each call answers and what it does to the set.  The tree
  refines it (`index_refines_set`): the relation between the two states is that the leaves list
  the set in key order and hold under every key the record identifier that is part of it.
-/
import Mathlib.Data.Finset.Basic
import Miniob.Index.RangeScan
import Miniob.Index.Run

namespace Miniob.Index

open Miniob.Common Miniob.Storage BplusTree

variable {U : Type}

/-! ## Calls on an index -/

/-- A call on an index. -/
inductive IndexOp (U : Type) where
  | insertEntry (userKey : U) (rid : RecordId)
  | deleteEntry (userKey : U) (rid : RecordId)
  | getEntry (userKey : U) (rest : RID)

/-- What the call does: `make_key`, then the tree.  Only `get_entry` has record identifiers to
    return. -/
def IndexOp.apply (unique : Bool) (attrCmp : U → U → Ordering) (zeroKey : IndexKey U)
    (t : BplusTree (IndexKey U) RecordId) :
    IndexOp U → Except Fault ((RC × List RecordId) × BplusTree (IndexKey U) RecordId)
  | .insertEntry userKey rid => do
    let (rc, t) ← t.insertEntry (keyCmp unique attrCmp) zeroKey ⟨userKey, rid⟩ rid
    return ((rc, []), t)
  | .deleteEntry userKey rid => do
    let (rc, t) ← t.deleteEntry (keyCmp unique attrCmp) ⟨userKey, rid⟩
    return ((rc, []), t)
  | .getEntry userKey rest => do
    return (← t.getEntry unique attrCmp userKey rest, t)

/-! ## The specification -/

/-- A set of pairs, and what each call answers and does. -/
inductive SetStep [DecidableEq U] (S : Finset (U × RecordId)) :
    IndexOp U → RC × List RecordId → Finset (U × RecordId) → Prop where
  | duplicate {u : U} {rid : RecordId} : (u, rid) ∈ S →
      SetStep S (.insertEntry u rid) (.recordDuplicateKey, []) S
  | inserted {u : U} {rid : RecordId} : (u, rid) ∉ S →
      SetStep S (.insertEntry u rid) (.success, []) (insert (u, rid) S)
  | notExist {u : U} {rid : RecordId} : (u, rid) ∉ S →
      SetStep S (.deleteEntry u rid) (.recordNotExist, []) S
  | deleted {u : U} {rid : RecordId} : (u, rid) ∈ S →
      SetStep S (.deleteEntry u rid) (.success, []) (S.erase (u, rid))
  | found {u : U} {rest : RID} {rids : List RecordId} : rids.Nodup →
      (∀ rid, rid ∈ rids ↔ (u, rid) ∈ S) → SetStep S (.getEntry u rest) (.success, rids) S

/-! ## The tree -/

/-- The leaves, followed from the leftmost one along `next_brother`, hold the entries `es`. -/
def LeavesHold {K V : Type} (t : BplusTree K V) (es : List (K × V)) : Prop :=
  (t.isEmpty = true ∧ es = []) ∨ ∃ p leaves, Leftmost t t.fileHeader.rootPage p ∧
    BrotherChain t p leaves ∧ leaves.flatMap Prod.snd = es

/-- There is one leftmost leaf. -/
theorem Leftmost.unique {K V : Type} {t : BplusTree K V} {p q q' : PageNum} (h : Leftmost t p q)
    (h' : Leftmost t p q') : q = q' := by
  induction h with
  | leaf hb =>
    cases h' with
    | leaf _ => rfl
    | down hb' _ => cases hb.symm.trans hb'
  | down hb _ ih =>
    cases h' with
    | leaf hb' => cases hb.symm.trans hb'
    | down hb' h' =>
      have heq := Option.some.inj (hb.symm.trans hb')
      simp only [NodeBody.internal.injEq, List.cons.injEq] at heq
      exact ih (heq.1 ▸ h')

/-- The invalid page number is no page. -/
theorem body_invalid {K V : Type} (t : BplusTree K V) : t.body bpInvalidPageNum = none := by
  unfold body
  cases h : t.pool.page bpInvalidPageNum with
  | none => rfl
  | some a => exact absurd (t.pool.pageRange _ _ h).1 (by decide)

/-- And one chain from it. -/
theorem BrotherChain.unique {K V : Type} {t : BplusTree K V} {p : PageNum}
    {leaves leaves' : List (PageNum × List (K × V))} (h : BrotherChain t p leaves)
    (h' : BrotherChain t p leaves') : leaves = leaves' := by
  induction h generalizing leaves' with
  | nil =>
    cases h' with
    | nil => rfl
    | cons hb _ => cases (body_invalid t).symm.trans hb
  | cons hb _ ih =>
    cases h' with
    | nil => cases (body_invalid t).symm.trans hb
    | cons hb' h' =>
      have heq := Option.some.inj (hb.symm.trans hb')
      simp only [NodeBody.leaf.injEq] at heq
      obtain ⟨rfl, rfl⟩ := heq
      rw [ih h']

/-- The leaves hold one list. -/
theorem LeavesHold.unique {K V : Type} {t : BplusTree K V} {es es' : List (K × V)}
    (h : LeavesHold t es) (h' : LeavesHold t es') : es = es' := by
  have hroot : t.isEmpty = true → ∀ p, ¬ Leftmost t t.fileHeader.rootPage p := by
    intro hempty p hp
    rw [isEmpty, beq_iff_eq] at hempty
    rw [hempty] at hp
    cases hp with
    | leaf hb => cases (body_invalid t).symm.trans hb
    | down hb _ => cases (body_invalid t).symm.trans hb
  rcases h with ⟨hempty, rfl⟩ | ⟨p, leaves, hp, hleaves, rfl⟩ <;>
    rcases h' with ⟨hempty', rfl⟩ | ⟨p', leaves', hp', hleaves', rfl⟩
  · rfl
  · exact absurd hp' (hroot hempty p')
  · exact absurd hp (hroot hempty' p)
  · obtain rfl := hp.unique hp'
    rw [hleaves.unique hleaves']

/-- The leaves of a tree hold its entries. -/
theorem IsTree.leavesHold {K V : Type} {cmp : K → K → Ordering} {zeroKey : K} {Q : K → Prop}
    {t : BplusTree K V} {es : List (K × V)} (h : IsTree cmp zeroKey Q t es) : LeavesHold t es := by
  rcases h with ⟨hempty, rfl⟩ | ⟨segs, Ls, hinv, rfl⟩
  · exact Or.inl ⟨hempty, rfl⟩
  · obtain ⟨s, rest, rfl⟩ := List.exists_cons_of_ne_nil hinv.segs_ne_nil
    refine Or.inr ⟨s.page, _, hinv.levels.leftmost (.leaf hinv.leaves.1),
      hinv.leaves.brotherChain, ?_⟩
    rw [List.flatMap_map]

theorem IsTree.hasLeaves {K V : Type} {cmp : K → K → Ordering} {zeroKey : K} {Q : K → Prop}
    {t : BplusTree K V} {es : List (K × V)} (h : IsTree cmp zeroKey Q t es) :
    ∃ segs, HasLeaves cmp zeroKey Q t segs ∧ segs.flatMap Seg.items = es := by
  rcases h with ⟨hempty, rfl⟩ | ⟨segs, Ls, hinv, rfl⟩
  · exact ⟨[], Or.inl ⟨hempty, rfl⟩, rfl⟩
  · exact ⟨segs, Or.inr ⟨Ls, hinv⟩, rfl⟩

/-- An index tree: sound, and every entry's value is the record identifier in its key. -/
structure IsIndex (unique : Bool) (attrCmp : U → U → Ordering) (zeroKey : IndexKey U)
    (Q : IndexKey U → Prop) (t : BplusTree (IndexKey U) RecordId)
    (es : List (IndexKey U × RecordId)) : Prop where
  tree : IsTree (keyCmp unique attrCmp) zeroKey Q t es
  capacity : Capacity (keyCmp unique attrCmp) zeroKey Q t.fileHeader
  values : ∀ e ∈ es, e.2 = e.1.rid

section Calls

variable {unique : Bool} {attrCmp : U → U → Ordering} {zeroKey : IndexKey U}
  {Q : IndexKey U → Prop} {t : BplusTree (IndexKey U) RecordId}
  {es : List (IndexKey U × RecordId)}

theorem IsIndex.create {attrLength : Nat} {internalMaxSize leafMaxSize : Int}
    (h : Capacity (keyCmp unique attrCmp) zeroKey Q (create attrLength internalMaxSize leafMaxSize :
      BplusTree (IndexKey U) RecordId).fileHeader) :
    IsIndex unique attrCmp zeroKey Q (BplusTree.create attrLength internalMaxSize leafMaxSize) [] where
  tree := Or.inl ⟨rfl, rfl⟩
  capacity := h
  values _ he := nomatch he

variable [Std.TransCmp attrCmp]

/-- `insert_entry` finds an equal key, or puts the pair at its place. -/
theorem IsIndex.insertEntry (h : IsIndex unique attrCmp zeroKey Q t es) (u : U) (rid : RecordId)
    (hQ : Q ⟨u, rid⟩) :
    (∃ e ∈ es, keyCmp unique attrCmp e.1 ⟨u, rid⟩ = .eq ∧
      (IndexOp.insertEntry u rid).apply unique attrCmp zeroKey t
        = .ok ((.recordDuplicateKey, []), t)) ∨
    ∃ pre post t', es = pre ++ post ∧
      (∀ e ∈ es, keyCmp unique attrCmp e.1 ⟨u, rid⟩ ≠ .eq) ∧
      (IndexOp.insertEntry u rid).apply unique attrCmp zeroKey t = .ok ((.success, []), t') ∧
      IsIndex unique attrCmp zeroKey Q t' (pre ++ (⟨u, rid⟩, rid) :: post) := by
  rcases insertEntry_spec rid h.tree hQ h.capacity.leaf h.capacity.internal.1 with
    ⟨pre, e, post, rfl, he, hrun⟩ | ⟨pre, post, t', rfl, hpre, hpost, hrun, htree, hl, hi⟩
  · refine Or.inl ⟨e, by simp, he, ?_⟩
    rw [IndexOp.apply, hrun]
    rfl
  · refine Or.inr ⟨pre, post, t', rfl, fun e he => ?_, ?_, htree, h.capacity.congr hl hi, ?_⟩
    · rcases List.mem_append.mp he with he | he
      · rw [hpre e he]
        nofun
      · rw [gt_of_lt (hpost e he)]
        nofun
    · rw [IndexOp.apply, hrun]
      rfl
    · intro e he
      simp only [List.mem_append, List.mem_cons] at he
      rcases he with he | rfl | he
      · exact h.values e (List.mem_append_left _ he)
      · rfl
      · exact h.values e (List.mem_append_right _ he)

/-- `delete_entry` finds no equal key, or takes out the entry that has one. -/
theorem IsIndex.deleteEntry (h : IsIndex unique attrCmp zeroKey Q t es) (u : U) (rid : RecordId) :
    ((∀ e ∈ es, keyCmp unique attrCmp e.1 ⟨u, rid⟩ ≠ .eq) ∧
      (IndexOp.deleteEntry u rid).apply unique attrCmp zeroKey t = .ok ((.recordNotExist, []), t)) ∨
    ∃ pre e post t', es = pre ++ e :: post ∧ keyCmp unique attrCmp e.1 ⟨u, rid⟩ = .eq ∧
      (IndexOp.deleteEntry u rid).apply unique attrCmp zeroKey t = .ok ((.success, []), t') ∧
      IsIndex unique attrCmp zeroKey Q t' (pre ++ post) := by
  rcases deleteEntry_spec ⟨u, rid⟩ h.tree h.capacity with
    ⟨hne, hrun⟩ | ⟨pre, e, post, t', rfl, he, hrun, htree, hl, hi⟩
  · refine Or.inl ⟨hne, ?_⟩
    rw [IndexOp.apply, hrun]
    rfl
  · refine Or.inr ⟨pre, e, post, t', rfl, he, ?_, htree, h.capacity.congr hl hi, fun x hx => ?_⟩
    · rw [IndexOp.apply, hrun]
      rfl
    · refine h.values x ?_
      simp only [List.mem_append, List.mem_cons] at hx ⊢
      tauto

/-- `get_entry` returns the record identifiers under the key, in order. -/
theorem IsIndex.getEntry (h : IsIndex unique attrCmp zeroKey Q t es) (u : U) (rest : RID) :
    (IndexOp.getEntry u rest).apply unique attrCmp zeroKey t = .ok ((.success,
      (es.filter fun e => attrCmp e.1.userKey u == .eq).map Prod.snd), t) := by
  obtain ⟨segs, hleaves, rfl⟩ := h.tree.hasLeaves
  let bound : Option (Bound U) := some ⟨u, rest, true⟩
  obtain ⟨s, out, hopen, hcalls, hsub, hlen⟩ := scanAt_spec hleaves (bound.map Bound.leftKey)
    (bound.map Bound.rightKey) (Or.inr fun _ => rfl : false = true ∨ ∀ p, (fun _ => true) p = true)
  have hout := hsub.eq_of_length (hlen.mpr fun ⟨_, _, _, _, _, _, href⟩ => nomatch href)
  have hfilter : (segs.flatMap Seg.items).filter (betweenKeys (keyCmp unique attrCmp)
      (bound.map Bound.leftKey) (bound.map Bound.rightKey))
      = (segs.flatMap Seg.items).filter fun e => attrCmp e.1.userKey u == .eq := by
    refine List.filter_congr fun e _ => ?_
    rw [betweenKeys_eq (Or.inl (by simp [bound]))]
    simp only [inBounds, bound, Option.all_some, Bound.aboveLeft, Bound.belowRight]
    cases attrCmp e.1.userKey u <;> rfl
  have hrej : rangeRejected unique attrCmp bound bound = false := by
    have hself : keyComparator unique attrCmp (u, rest) (u, rest) = .eq := by
      simp [keyComparator, Std.ReflCmp.compare_self, RID.compare, int32, sign]
    simp [rangeRejected, bound, hself]
  rw [IndexOp.apply, BplusTree.getEntry, openScanner, hrej, hopen]
  simp only [bind, Except.bind, hcalls, hout, hfilter, Bool.false_eq_true, if_false, pure,
    Except.pure]
  rfl

end Calls

/-! ## The refinement -/

section Refinement

variable {attrCmp : U → U → Ordering} [Std.TransCmp attrCmp] {zeroKey : IndexKey U}
  {t : BplusTree (IndexKey U) RecordId} {es : List (IndexKey U × RecordId)}

/-- The leaves list the set. -/
def Represents (attrCmp : U → U → Ordering) (zeroKey : IndexKey U)
    (t : BplusTree (IndexKey U) RecordId) (S : Finset (U × RecordId)) : Prop :=
  ∃ es, IsIndex false attrCmp zeroKey (fun _ => True) t es ∧
    ∀ e, e ∈ es ↔ (e.1.userKey, e.1.rid) ∈ S ∧ e.2 = e.1.rid

theorem IsIndex.nodup {Q : IndexKey U → Prop} (h : IsIndex false attrCmp zeroKey Q t es) :
    es.Nodup :=
  h.tree.sorted.imp fun {a b} hab hne => by
    rw [hne, @Std.ReflCmp.compare_self _ (keyCmp false attrCmp)] at hab
    cases hab

/-- An entry is determined by its key. -/
theorem entry_eq {e : IndexKey U × RecordId} {u : U} {rid : RecordId} (hv : e.2 = e.1.rid)
    (h : e.1 = ⟨u, rid⟩) : e = (⟨u, rid⟩, rid) :=
  Prod.ext h (by rw [hv, h])

variable [Std.LawfulEqCmp attrCmp] [DecidableEq U] {S : Finset (U × RecordId)}

/-- **Step.**  Every call answers as the set does and leaves the leaves listing the new set. -/
theorem Represents.step (h : Represents attrCmp zeroKey t S) (op : IndexOp U) :
    ∃ r t' S', op.apply false attrCmp zeroKey t = .ok (r, t') ∧ SetStep S op r S' ∧
      Represents attrCmp zeroKey t' S' := by
  have hrep := h
  obtain ⟨es, hidx, hmem⟩ := h
  have hin : ∀ u rid, (u, rid) ∈ S ↔ ((⟨u, rid⟩, rid) : IndexKey U × RecordId) ∈ es := fun u rid => by
    rw [hmem]
    simp
  -- in a non-unique index an entry with an equal key is the pair itself
  have hpair : ∀ e ∈ es, ∀ u rid, keyCmp false attrCmp e.1 ⟨u, rid⟩ = .eq →
      e = (⟨u, rid⟩, rid) := by
    intro e he u rid heq
    exact entry_eq (hidx.values e he) (keyCmp_false_eq.mp heq)
  cases op with
  | insertEntry u rid =>
    rcases hidx.insertEntry u rid trivial with ⟨e, he, heq, hrun⟩ | ⟨pre, post, t', rfl, hne, hrun, hidx'⟩
    · exact ⟨_, t, S, hrun, .duplicate ((hin u rid).mpr (hpair e he u rid heq ▸ he)), hrep⟩
    · have hnot : (u, rid) ∉ S := fun hS =>
        hne _ ((hin u rid).mp hS) (keyCmp_false_eq.mpr rfl)
      refine ⟨_, t', insert (u, rid) S, hrun, .inserted hnot, _, hidx', fun e => ?_⟩
      rw [Finset.mem_insert]
      have := hmem e
      obtain ⟨⟨u', r'⟩, v⟩ := e
      simp only [List.mem_append, List.mem_cons, Prod.mk.injEq, IndexKey.mk.injEq] at this ⊢
      constructor
      · rintro (h | ⟨⟨rfl, rfl⟩, rfl⟩ | h)
        · exact ⟨Or.inr (this.mp (Or.inl h)).1, (this.mp (Or.inl h)).2⟩
        · exact ⟨Or.inl ⟨rfl, rfl⟩, rfl⟩
        · exact ⟨Or.inr (this.mp (Or.inr h)).1, (this.mp (Or.inr h)).2⟩
      · rintro ⟨⟨rfl, rfl⟩ | h, rfl⟩
        · exact Or.inr (Or.inl ⟨⟨rfl, rfl⟩, rfl⟩)
        · rcases this.mpr ⟨h, rfl⟩ with h | h
          · exact Or.inl h
          · exact Or.inr (Or.inr h)
  | deleteEntry u rid =>
    rcases hidx.deleteEntry u rid with ⟨hne, hrun⟩ | ⟨pre, e, post, t', hes, heq, hrun, hidx'⟩
    · exact ⟨_, t, S, hrun, .notExist fun hS =>
        hne _ ((hin u rid).mp hS) (keyCmp_false_eq.mpr rfl), hrep⟩
    · obtain rfl := hpair e (by rw [hes]; simp) u rid heq
      refine ⟨_, t', S.erase (u, rid), hrun, .deleted ((hin u rid).mpr (by rw [hes]; simp)), _,
        hidx', fun e => ?_⟩
      have hnd := hidx.nodup
      have := hmem e
      rw [hes] at hnd this
      have hnot : ((⟨u, rid⟩, rid) : IndexKey U × RecordId) ∉ pre ++ post :=
        (List.nodup_cons.mp (List.nodup_middle.mp hnd)).1
      rw [Finset.mem_erase]
      constructor
      · intro he
        have hS := this.mp (by simp only [List.mem_append, List.mem_cons] at he ⊢; tauto)
        refine ⟨⟨fun heq => hnot ?_, hS.1⟩, hS.2⟩
        obtain ⟨hu, hr⟩ := Prod.mk.inj heq
        rwa [← entry_eq hS.2 (show e.1 = ⟨u, rid⟩ by rw [← hu, ← hr])]
      · rintro ⟨⟨hne, hS⟩, hv⟩
        have he := this.mpr ⟨hS, hv⟩
        simp only [List.mem_append, List.mem_cons] at he ⊢
        rcases he with he | rfl | he
        · exact Or.inl he
        · exact absurd rfl hne
        · exact Or.inr he
  | getEntry u rest =>
    refine ⟨_, t, S, hidx.getEntry u rest, .found ?_ fun rid => ?_, hrep⟩
    · refine (hidx.nodup.filter _).map_on fun a ha b hb hab => ?_
      obtain ⟨ha, hau⟩ := List.mem_filter.mp ha
      obtain ⟨hb, hbu⟩ := List.mem_filter.mp hb
      have hu : a.1.userKey = b.1.userKey := by
        rw [Std.LawfulEqCmp.eq_of_compare (beq_iff_eq.mp hau),
          Std.LawfulEqCmp.eq_of_compare (beq_iff_eq.mp hbu)]
      rw [hidx.values a ha, hidx.values b hb] at hab
      obtain ⟨⟨u₁, r₁⟩, v₁⟩ := a
      obtain ⟨⟨u₂, r₂⟩, v₂⟩ := b
      obtain rfl : u₁ = u₂ := hu
      obtain rfl : r₁ = r₂ := hab
      exact Prod.ext rfl ((hidx.values _ ha).trans (hidx.values _ hb).symm)
    · rw [hin, List.mem_map]
      constructor
      · rintro ⟨e, he, rfl⟩
        obtain ⟨he, heu⟩ := List.mem_filter.mp he
        have hu := Std.LawfulEqCmp.eq_of_compare (beq_iff_eq.mp heu)
        have hv := hidx.values e he
        rwa [← entry_eq hv (show e.1 = ⟨u, e.2⟩ by rw [← hu, hv])]
      · intro he
        exact ⟨_, List.mem_filter.mpr ⟨he, beq_iff_eq.mpr Std.ReflCmp.compare_self⟩, rfl⟩

end Refinement

/-- **Headline.**  Every run of calls on an initially empty non-unique index is a run of the set, and
    the leaves are the sorted listing of the set it ends in. -/
theorem index_refines_set [DecidableEq U] (attrCmp : U → U → Ordering) [Std.TransCmp attrCmp]
    [Std.LawfulEqCmp attrCmp] (zeroKey : IndexKey U) (attrLength : Nat)
    (internalMaxSize leafMaxSize : Int) (ops : List (IndexOp U))
    (hleaf : 4 ≤ (create attrLength internalMaxSize leafMaxSize :
      BplusTree (IndexKey U) RecordId).fileHeader.leafMaxSize)
    (hinternal : 6 ≤ (create attrLength internalMaxSize leafMaxSize :
      BplusTree (IndexKey U) RecordId).fileHeader.internalMaxSize) :
    ∃ results t S, runOps (IndexOp.apply false attrCmp zeroKey)
        (create attrLength internalMaxSize leafMaxSize) ops = .ok (results, t) ∧
      SpecRun SetStep ∅ ops results S ∧
      ∃ es, LeavesHold t es ∧ (es.Pairwise fun a b => keyCmp false attrCmp a.1 b.1 = .lt) ∧
        ∀ e, e ∈ es ↔ (e.1.userKey, e.1.rid) ∈ S ∧ e.2 = e.1.rid := by
  have hstart : Represents attrCmp zeroKey (create attrLength internalMaxSize leafMaxSize) ∅ :=
    ⟨[], IsIndex.create ⟨hleaf, by omega, Or.inl hinternal⟩, fun e => by simp⟩
  obtain ⟨results, t, S, hrun, hspec, es, hidx, hmem⟩ :=
    runOps_refines (fun _ _ op h => h.step op) ops hstart
  exact ⟨results, t, S, hrun, hspec, es, hidx.tree.leavesHold, hidx.tree.sorted, hmem⟩

/-- A few calls, as an example of a run: five pairs, which take two leaves, one of them inserted twice and looked
    up; a deletion, and one under another record identifier. -/
def someCalls : List (IndexOp Int) :=
  (List.finRange 5).map (fun n => .insertEntry n.val (rowRid n)) ++
    [.insertEntry 3 (rowRid 3), .getEntry 3 ⟨0, 0⟩, .deleteEntry 1 (rowRid 1), .deleteEntry 2 (rowRid 4)]

theorem index_refines_set_someCalls : ∃ results t S,
    runOps (IndexOp.apply false compare (⟨0, .min⟩ : IndexKey Int)) (create 4 6 4) someCalls
        = .ok (results, t) ∧
      SpecRun SetStep ∅ someCalls results S ∧
      ∃ es, LeavesHold t es ∧ (es.Pairwise fun a b => keyCmp false compare a.1 b.1 = .lt) ∧
        ∀ e, e ∈ es ↔ (e.1.userKey, e.1.rid) ∈ S ∧ e.2 = e.1.rid :=
  index_refines_set compare ⟨0, .min⟩ 4 6 4 someCalls (by decide) (by decide)

end Miniob.Index
