/-
  Runs of insertions and deletions on an initially empty tree.

  `runOps_isTree` carries the invariant of the tree through a run, and the first result of the
  module reads it off: every reachable tree is well formed.  The second one is about the
  capacities `create` accepts: where the rebalancing after a deletion stays inside its nodes.
-/
import Miniob.Common.Run
import Miniob.Index.DeleteEntry
import Miniob.Index.InsertEntry
import Miniob.Index.WellFormed

namespace Miniob.Index

open Miniob.Common Miniob.Storage BplusTree

variable {K V : Type}

/-- A call that changes the tree. -/
inductive TreeOp (K V : Type) where
  | insertEntry (key : K) (value : V)
  | deleteEntry (key : K)

namespace TreeOp

/-- What the call does. -/
def apply (cmp : K → K → Ordering) (zeroKey : K) (t : BplusTree K V) :
    TreeOp K V → Except Fault (RC × BplusTree K V)
  | .insertEntry key value => t.insertEntry cmp zeroKey key value
  | .deleteEntry key => t.deleteEntry cmp key

/-- A key the call may bring into the tree satisfies `Q`. -/
def Inserts (Q : K → Prop) : TreeOp K V → Prop
  | .insertEntry key _ => Q key
  | .deleteEntry _ => True

end TreeOp

/-! ## The invariant along a run -/

section Invariant

variable {cmp : K → K → Ordering} {zeroKey : K} {Q : K → Prop}

/-- A well-formed tree whose capacities the deletion can work with. -/
def Sound (cmp : K → K → Ordering) (zeroKey : K) (Q : K → Prop) (t : BplusTree K V) : Prop :=
  (∃ es, IsTree cmp zeroKey Q t es) ∧ Capacity cmp zeroKey Q t.fileHeader

theorem Sound.wellFormedTree [Std.TransCmp cmp] {t : BplusTree K V} (h : Sound cmp zeroKey Q t) :
    WellFormedTree cmp t := by
  obtain ⟨⟨es, ⟨hempty, -⟩ | ⟨segs, Ls, hinv, -⟩⟩, -⟩ := h
  · exact Or.inl hempty
  · exact Or.inr hinv.toTreeShape.wellFormed

theorem Sound.create {attrLength : Nat} {internalMaxSize leafMaxSize : Int}
    (h : Capacity cmp zeroKey Q
      (create attrLength internalMaxSize leafMaxSize : BplusTree K V).fileHeader) :
    Sound cmp zeroKey Q (BplusTree.create attrLength internalMaxSize leafMaxSize : BplusTree K V) :=
  ⟨⟨[], Or.inl ⟨rfl, rfl⟩⟩, h⟩

variable [Std.TransCmp cmp]

/-- **Step.**  On a sound tree every call returns, and leaves a sound tree. -/
theorem Sound.apply {t : BplusTree K V} (h : Sound cmp zeroKey Q t) (op : TreeOp K V)
    (hop : op.Inserts Q) :
    ∃ rc t', op.apply cmp zeroKey t = .ok (rc, t') ∧ Sound cmp zeroKey Q t' := by
  have hsound := h
  obtain ⟨⟨es, htree⟩, hcap⟩ := h
  cases op with
  | insertEntry key value =>
    rcases insertEntry_spec value htree hop hcap.leaf hcap.internal.1 with
      ⟨_, _, _, -, -, hrun⟩ | ⟨_, _, t', -, -, -, hrun, htree', hl, hi⟩
    · exact ⟨_, t, hrun, hsound⟩
    · exact ⟨_, t', hrun, ⟨_, htree'⟩, hcap.congr hl hi⟩
  | deleteEntry key =>
    rcases deleteEntry_spec key htree hcap with ⟨-, hrun⟩ | ⟨_, _, _, t', -, -, hrun, htree', hl, hi⟩
    · exact ⟨_, t, hrun, hsound⟩
    · exact ⟨_, t', hrun, ⟨_, htree'⟩, hcap.congr hl hi⟩

/-- **Run.**  So does every list of calls. -/
theorem runOps_sound {t : BplusTree K V} (h : Sound cmp zeroKey Q t) (ops : List (TreeOp K V))
    (hops : ∀ op ∈ ops, op.Inserts Q) :
    ∃ rcs t', runOps (TreeOp.apply cmp zeroKey) t ops = .ok (rcs, t') ∧ Sound cmp zeroKey Q t' :=
  runOps_invariant (fun _ op h hop => h.apply op hop) h hops

end Invariant

/-- **Headline.**  Whatever is inserted and deleted, every tree reachable from the empty one is
    well formed, for any comparator that is a total order and any leaf capacity from 4 and internal
    capacity from 6 on. -/
theorem reachable_wellFormed (cmp : K → K → Ordering) [Std.TransCmp cmp] (zeroKey : K)
    (attrLength : Nat) (internalMaxSize leafMaxSize : Int) (ops : List (TreeOp K V))
    (hleaf : 4 ≤ (create attrLength internalMaxSize leafMaxSize :
      BplusTree K V).fileHeader.leafMaxSize)
    (hinternal : 6 ≤ (create attrLength internalMaxSize leafMaxSize :
      BplusTree K V).fileHeader.internalMaxSize) :
    ∃ rcs t, runOps (TreeOp.apply cmp zeroKey) (create attrLength internalMaxSize leafMaxSize) ops
      = .ok (rcs, t) ∧ WellFormedTree cmp t := by
  have hcap : Capacity cmp zeroKey (fun _ => True)
      (create attrLength internalMaxSize leafMaxSize : BplusTree K V).fileHeader :=
    ⟨hleaf, by omega, Or.inl hinternal⟩
  obtain ⟨rcs, t, hrun, hsound⟩ := runOps_sound (Sound.create hcap) ops fun op _ => by
    cases op <;> trivial
  exact ⟨rcs, t, hrun, hsound.wellFormedTree⟩

/-- The smallest capacities, with one insertion of each of six keys and two deletions. -/
theorem reachable_wellFormed_six : ∃ rcs t,
    runOps (TreeOp.apply compare (0 : Int)) (create 4 6 4)
      [.insertEntry 3 (), .insertEntry (-1) (), .insertEntry 5 (), .insertEntry 4 (),
        .insertEntry 9 (), .insertEntry 7 (), .deleteEntry 3, .deleteEntry (-1)]
      = .ok (rcs, t) ∧ WellFormedTree compare t :=
  reachable_wellFormed compare 0 4 6 4 _ (by decide) (by decide)

/-! ## Where the rebalancing stays inside its nodes -/

/-- From the leaf `find_leaf` leads to, the deletion returns: neither the removal nor the
    rebalancing asks a page for something it does not hold, and no assertion fires. -/
def DeletionInDomain (cmp : K → K → Ordering) (t : BplusTree K V) : Prop :=
  ∀ key leafFrame, t.findLeaf cmp key = .ok (some leafFrame) →
    ∃ out, t.deleteEntryInternal cmp leafFrame key = .ok out

/-- The capacities, together with the keys that are inserted, the rebalancing is written for: a leaf
    keeps an item after it falls below its minimum, an internal node keeps two, and where an internal
    node may fall to one live key the zero key of the leftmost spine is below all others. -/
def RebalanceDomain (cmp : K → K → Ordering) (zeroKey : K) (header : IndexFileHeader)
    (ops : List (TreeOp K V)) : Prop :=
  4 ≤ header.leafMaxSize ∧ (6 ≤ header.internalMaxSize ∨
    4 ≤ header.internalMaxSize ∧ ∀ op ∈ ops, op.Inserts fun key => cmp zeroKey key = .lt)

theorem Sound.deletionInDomain {cmp : K → K → Ordering} [Std.TransCmp cmp] {zeroKey : K}
    {Q : K → Prop} {t : BplusTree K V} (h : Sound cmp zeroKey Q t) : DeletionInDomain cmp t := by
  intro key leafFrame hf
  obtain ⟨rc, t', hrun, -⟩ := h.apply (.deleteEntry key) trivial
  rw [TreeOp.apply, deleteEntry, hf] at hrun
  exact ⟨_, hrun⟩

/-- **Headline.**  Where the comparator is a total order of the keys, every run within the domain
    returns and keeps the rebalancing inside its nodes. -/
theorem rebalance_in_domain (cmp : K → K → Ordering) [Std.TransCmp cmp] (zeroKey : K)
    (attrLength : Nat) (internalMaxSize leafMaxSize : Int) (ops : List (TreeOp K V))
    (hdom : RebalanceDomain cmp zeroKey
      (create attrLength internalMaxSize leafMaxSize : BplusTree K V).fileHeader ops) :
    ∃ rcs t, runOps (TreeOp.apply cmp zeroKey) (create attrLength internalMaxSize leafMaxSize) ops
      = .ok (rcs, t) ∧ DeletionInDomain cmp t := by
  -- the keys of the tree: any at all, or all above the zero key
  obtain ⟨hleaf, hsix | ⟨hfour, hops⟩⟩ := hdom
  · have hstart : Sound cmp zeroKey (fun _ => True)
        (create attrLength internalMaxSize leafMaxSize : BplusTree K V) :=
      Sound.create ⟨hleaf, by omega, Or.inl hsix⟩
    obtain ⟨rcs, t, hrun, h⟩ := runOps_sound hstart ops fun op _ => by cases op <;> trivial
    exact ⟨rcs, t, hrun, h.deletionInDomain⟩
  · have hstart : Sound cmp zeroKey (fun key => cmp zeroKey key = .lt)
        (create attrLength internalMaxSize leafMaxSize : BplusTree K V) :=
      Sound.create ⟨hleaf, hfour, Or.inr fun _ h => h⟩
    obtain ⟨rcs, t, hrun, h⟩ := runOps_sound hstart ops hops
    exact ⟨rcs, t, hrun, h.deletionInDomain⟩

/-- The smallest capacities, with keys above the zero key: five insertions split the leaf, and the
    deletions merge the halves again. -/
theorem rebalance_in_domain_four : ∃ rcs t, runOps (TreeOp.apply compare (0 : Nat)) (create 4 4 4)
    [.insertEntry 1 (), .insertEntry 2 (), .insertEntry 3 (), .insertEntry 4 (), .insertEntry 5 (),
      .deleteEntry 1, .deleteEntry 5, .deleteEntry 2] = .ok (rcs, t) ∧ DeletionInDomain compare t :=
  rebalance_in_domain compare 0 4 4 4 _ ⟨by decide, Or.inr ⟨by decide, by
    simp [TreeOp.Inserts]
    decide⟩⟩

/-- With capacity 3 the first split leaves one item in the left leaf; deleting it empties the leaf,
    and `key_at(size() - 1)` reads in front of its items. -/
theorem deletion_leaves_domain :
    ¬ ∀ (internalMaxSize leafMaxSize : Int) (ops : List (TreeOp Nat Unit)) (rcs : List RC)
      (t : BplusTree Nat Unit), runOps (TreeOp.apply compare 0)
        (create 4 internalMaxSize leafMaxSize) ops = .ok (rcs, t) → DeletionInDomain compare t := by
  intro h
  have hrun : runOps (TreeOp.apply compare (0 : Nat)) (create 4 3 3)
    [.insertEntry 1 (), .insertEntry 2 (), .insertEntry 3 (), .insertEntry 4 ()] = .ok (_, _) := rfl
  obtain ⟨out, hout⟩ := h 3 3 _ _ _ hrun 1 2 rfl
  cases hout

end Miniob.Index
