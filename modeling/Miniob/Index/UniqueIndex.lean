/-
  The unique index.  Its comparator does not look at the record identifier, while `delete_entry`
  and the keys `open` makes of exclusive bounds count on it.

  `unique_index_iff` says, for every reachable tree, exactly which deletions and which scans still
  do what they should: a deletion whose user key is stored, if at all, with the record identifier
  given; a scan none of whose exclusive bounds is a stored user key.
-/
import Miniob.Index.EntrySet

namespace Miniob.Index

open Miniob.Common Miniob.Storage BplusTree

variable {U : Type}

/-! ## What is expected -/

/-- The deletion takes out the pair it was given, or reports that it is not there and leaves the
    tree alone. -/
def DeleteExact (attrCmp : U → U → Ordering) (t : BplusTree (IndexKey U) RecordId)
    (es : List (IndexKey U × RecordId)) (u : U) (rid : RecordId) : Prop :=
  t.deleteEntry (keyCmp true attrCmp) ⟨u, rid⟩ = .ok (.recordNotExist, t) ∨
  ∃ pre post t', es = pre ++ (⟨u, rid⟩, rid) :: post ∧
    t.deleteEntry (keyCmp true attrCmp) ⟨u, rid⟩ = .ok (.success, t') ∧ LeavesHold t' (pre ++ post)

/-- Whatever latches are refused, the scan comes to an end and returns only entries within the
    bounds. -/
def ScanInside (attrCmp : U → U → Ordering) (t : BplusTree (IndexKey U) RecordId)
    (es : List (IndexKey U × RecordId)) (left right : Option (Bound U)) : Prop :=
  ∀ trySlatch : PageNum → Bool, ∃ rc rids, t.scan true attrCmp trySlatch left right = .ok (rc, rids) ∧
    rids.Sublist ((es.filter fun e => inBounds attrCmp left right e.1.userKey).map Prod.snd)

/-- The user key equals an exclusive bound. -/
def AtExclusiveBound (attrCmp : U → U → Ordering) (left right : Option (Bound U)) (u : U) : Prop :=
  ∃ b, (b ∈ left ∨ b ∈ right) ∧ b.inclusive = false ∧ attrCmp u b.userKey = .eq

/-! ## What happens -/

section Unique

variable {attrCmp : U → U → Ordering} {zeroKey : IndexKey U} {Q : IndexKey U → Prop}
  {t : BplusTree (IndexKey U) RecordId} {es : List (IndexKey U × RecordId)}

/-- The bound with its own user key included. -/
def Bound.closed (b : Bound U) : Bound U := { b with inclusive := true }

/-- The comparator does not see which sentinel `open` has put into the key. -/
theorem betweenKeys_closed {left right : Option (Bound U)} {e : IndexKey U × RecordId} :
    betweenKeys (keyCmp true attrCmp) (left.map Bound.leftKey) (right.map Bound.rightKey) e
      = inBounds attrCmp (left.map Bound.closed) (right.map Bound.closed) e.1.userKey := by
  have hclosed : betweenKeys (keyCmp true attrCmp) ((left.map Bound.closed).map Bound.leftKey)
      ((right.map Bound.closed).map Bound.rightKey) e
      = inBounds attrCmp (left.map Bound.closed) (right.map Bound.closed) e.1.userKey := by
    refine betweenKeys_eq (Or.inl fun b hb => ?_)
    rcases hb with hb | hb
    · obtain ⟨b', -, rfl⟩ := Option.mem_map.mp hb
      rfl
    · obtain ⟨b', -, rfl⟩ := Option.mem_map.mp hb
      rfl
  rw [← hclosed]
  cases left <;> cases right <;>
    simp [betweenKeys, beforeLeft, pastRight, keyCmp_true, Bound.leftKey, Bound.rightKey,
      Bound.closed]

/-- What the exclusive bounds take away. -/
theorem inBounds_iff {left right : Option (Bound U)} {u : U} :
    inBounds attrCmp left right u = true ↔
      inBounds attrCmp (left.map Bound.closed) (right.map Bound.closed) u = true ∧
        ¬ AtExclusiveBound attrCmp left right u := by
  have hbound : ∀ b : Bound U, (b.aboveLeft attrCmp u = true ↔ b.closed.aboveLeft attrCmp u = true ∧
      ¬ (b.inclusive = false ∧ attrCmp u b.userKey = .eq)) ∧
      (b.belowRight attrCmp u = true ↔ b.closed.belowRight attrCmp u = true ∧
        ¬ (b.inclusive = false ∧ attrCmp u b.userKey = .eq)) := by
    intro b
    obtain ⟨v, rest, inclusive⟩ := b
    simp only [Bound.aboveLeft, Bound.belowRight, Bound.closed]
    cases attrCmp u v <;> cases inclusive <;> simp
  have hleft : left.all (·.aboveLeft attrCmp u) = true ↔
      (left.map Bound.closed).all (·.aboveLeft attrCmp u) = true ∧
        ∀ b ∈ left, ¬ (b.inclusive = false ∧ attrCmp u b.userKey = .eq) := by
    cases left with
    | none => simp
    | some b => simpa using (hbound b).1
  have hright : right.all (·.belowRight attrCmp u) = true ↔
      (right.map Bound.closed).all (·.belowRight attrCmp u) = true ∧
        ∀ b ∈ right, ¬ (b.inclusive = false ∧ attrCmp u b.userKey = .eq) := by
    cases right with
    | none => simp
    | some b => simpa using (hbound b).2
  have hat : ¬ AtExclusiveBound attrCmp left right u ↔
      (∀ b ∈ left, ¬ (b.inclusive = false ∧ attrCmp u b.userKey = .eq)) ∧
        ∀ b ∈ right, ¬ (b.inclusive = false ∧ attrCmp u b.userKey = .eq) := by
    constructor
    · exact fun h => ⟨fun b hb hex => h ⟨b, Or.inl hb, hex⟩, fun b hb hex => h ⟨b, Or.inr hb, hex⟩⟩
    · rintro ⟨hl, hr⟩ ⟨b, hb | hb, hex⟩
      · exact hl b hb hex
      · exact hr b hb hex
  rw [hat, inBounds, inBounds, Bool.and_eq_true, Bool.and_eq_true, hleft, hright]
  tauto

variable [Std.TransCmp attrCmp]

/-- A user key at an exclusive bound of an accepted range is within the closed bounds. -/
theorem inBounds_closed_of_accepted {left right : Option (Bound U)} {u : U}
    (hacc : rangeRejected true attrCmp left right = false)
    (hat : AtExclusiveBound attrCmp left right u) :
    inBounds attrCmp (left.map Bound.closed) (right.map Bound.closed) u = true := by
  obtain ⟨b, hb, hex, hu⟩ := hat
  -- `open` refuses a range that one exclusive bound makes empty
  have hlt : ∀ l r, left = some l → right = some r → (l.inclusive = false ∨ r.inclusive = false) →
      attrCmp l.userKey r.userKey = .lt := by
    rintro ⟨lu, lrest, linc⟩ ⟨ru, rrest, rinc⟩ rfl rfl hinc
    simp only [rangeRejected, keyComparator, Bool.or_eq_false_iff, beq_eq_false_iff_ne] at hacc
    dsimp only at hinc ⊢
    cases hlr : attrCmp lu ru with
    | lt => rfl
    | gt => simp [hlr] at hacc
    | eq => rcases hinc with rfl | rfl <;> simp [hlr] at hacc
  -- the key lies above the left bound, as it is the bound or comes after it
  have habove : left.all fun l => l.closed.aboveLeft attrCmp u := by
    cases left with
    | none => rfl
    | some l =>
      have hul : attrCmp u l.userKey ≠ .lt := by
        rcases hb with hb | hb
        · obtain rfl := Option.mem_some_iff.mp hb
          rw [hu]
          rintro ⟨⟩
        · obtain ⟨r, rfl⟩ : ∃ r, right = some r := ⟨b, hb⟩
          obtain rfl := Option.mem_some_iff.mp hb
          rw [gt_of_lt (Std.TransCmp.lt_of_lt_of_eq (hlt l r rfl rfl (Or.inr hex))
            (Std.OrientedCmp.eq_symm hu))]
          rintro ⟨⟩
      simp only [Option.all_some, Bound.aboveLeft, Bound.closed]
      cases h : attrCmp u l.userKey <;> simp [h] at hul ⊢
  have hbelow : right.all fun r => r.closed.belowRight attrCmp u := by
    cases right with
    | none => rfl
    | some r =>
      have hur : attrCmp u r.userKey ≠ .gt := by
        rcases hb with hb | hb
        · obtain ⟨l, rfl⟩ : ∃ l, left = some l := ⟨b, hb⟩
          obtain rfl := Option.mem_some_iff.mp hb
          rw [Std.TransCmp.lt_of_eq_of_lt hu (hlt l r rfl rfl (Or.inl hex))]
          rintro ⟨⟩
        · obtain rfl := Option.mem_some_iff.mp hb
          rw [hu]
          rintro ⟨⟩
      simp only [Option.all_some, Bound.belowRight, Bound.closed]
      cases h : attrCmp u r.userKey <;> simp [h] at hur ⊢
  rw [inBounds, Bool.and_eq_true, Option.all_map, Option.all_map]
  exact ⟨habove, hbelow⟩

/-- **Scans.** -/
theorem scanInside_iff (h : IsIndex true attrCmp zeroKey Q t es) (left right : Option (Bound U)) :
    ScanInside attrCmp t es left right ↔ rangeRejected true attrCmp left right = true ∨
      ∀ e ∈ es, ¬ AtExclusiveBound attrCmp left right e.1.userKey := by
  obtain ⟨segs, hleaves, rfl⟩ := h.tree.hasLeaves
  cases hrej : rangeRejected true attrCmp left right with
  | true =>
    refine iff_of_true (fun trySlatch => ⟨.invalidArgument, [], ?_, List.nil_sublist _⟩) (Or.inl rfl)
    rw [scan, openScanner, hrej]
    rfl
  | false =>
    have hscan : ∀ trySlatch : PageNum → Bool, ∃ out : List (IndexKey U × RecordId),
        t.scan true attrCmp trySlatch left right = .ok (.recordEof, out.map Prod.snd) ∧
        out.Sublist ((segs.flatMap Seg.items).filter fun e =>
          inBounds attrCmp (left.map Bound.closed) (right.map Bound.closed) e.1.userKey) ∧
        ((∀ p, trySlatch p = true) → out = (segs.flatMap Seg.items).filter fun e =>
          inBounds attrCmp (left.map Bound.closed) (right.map Bound.closed) e.1.userKey) := by
      intro trySlatch
      obtain ⟨s, out, hopen, hcalls, hsub, hlen⟩ := scanAt_spec hleaves (left.map Bound.leftKey)
        (right.map Bound.rightKey) (Or.inl rfl : true = true ∨ ∀ p, trySlatch p = true)
      rw [List.filter_congr fun e _ => betweenKeys_closed] at hsub hlen
      refine ⟨out, ?_, hsub, fun hall => hsub.eq_of_length (hlen.mpr fun href => ?_)⟩
      · rw [scan, openScanner, hrej, hopen]
        exact hcalls
      · obtain ⟨_, y, _, _, _, _, hy⟩ := href
        rw [hall] at hy
        cases hy
    have himp : ∀ e : IndexKey U × RecordId, inBounds attrCmp left right e.1.userKey = true →
        inBounds attrCmp (left.map Bound.closed) (right.map Bound.closed) e.1.userKey = true :=
      fun e he => (inBounds_iff.mp he).1
    constructor
    · intro hinside
      refine Or.inr fun e he hat => ?_
      obtain ⟨out, hrun, -, hout⟩ := hscan fun _ => true
      obtain ⟨rc, rids, hrun', hsub⟩ := hinside fun _ => true
      obtain ⟨-, rfl⟩ := Prod.mk.inj (Except.ok.inj (hrun.symm.trans hrun'))
      have hlen := hsub.length_le
      rw [List.length_map, List.length_map, hout fun _ => rfl] at hlen
      have heq := (List.monotone_filter_right (segs.flatMap Seg.items) himp).eq_of_length_le hlen
      have hmem : e ∈ (segs.flatMap Seg.items).filter fun e =>
          inBounds attrCmp left right e.1.userKey := by
        rw [heq]
        exact List.mem_filter.mpr ⟨he, inBounds_closed_of_accepted hrej hat⟩
      exact (inBounds_iff.mp (List.mem_filter.mp hmem).2).2 hat
    · intro hnone trySlatch
      have hnone := hnone.resolve_left Bool.false_ne_true
      obtain ⟨out, hrun, hsub, -⟩ := hscan trySlatch
      refine ⟨_, _, hrun, List.Sublist.map _ ?_⟩
      rwa [List.filter_congr fun e he => ?_]
      rw [Bool.eq_iff_iff, inBounds_iff]
      exact and_iff_left (hnone e he)

/-- In a sorted list only an entry itself has its key. -/
theorem eq_of_sorted {K V : Type} {cmp : K → K → Ordering} [Std.OrientedCmp cmp]
    {es : List (K × V)} (hs : es.Pairwise fun a b => cmp a.1 b.1 = .lt) {a b : K × V} (ha : a ∈ es)
    (hb : b ∈ es) (hab : cmp a.1 b.1 = .eq) : a = b := by
  obtain ⟨A, B, rfl⟩ := List.append_of_mem ha
  have hp := List.pairwise_append.mp hs
  simp only [List.mem_append, List.mem_cons] at hb
  rcases hb with hb | rfl | hb
  · have h := hp.2.2 b hb a (by simp)
    rw [Std.OrientedCmp.eq_symm hab] at h
    cases h
  · rfl
  · have h := (List.pairwise_cons.mp hp.2.1).1 b hb
    rw [hab] at h
    cases h

variable [Std.LawfulEqCmp attrCmp]

/-- **Deletions.** -/
theorem deleteExact_iff (h : IsIndex true attrCmp zeroKey Q t es) (u : U) (rid : RecordId) :
    DeleteExact attrCmp t es u rid ↔ ∀ e ∈ es, e.1.userKey = u → e.1.rid = rid := by
  have heq : ∀ e : IndexKey U × RecordId, keyCmp true attrCmp e.1 ⟨u, rid⟩ = .eq ↔
      e.1.userKey = u := fun e => by
    rw [keyCmp_true, Std.LawfulEqCmp.compare_eq_iff_eq]
  rcases deleteEntry_spec ⟨u, rid⟩ h.tree h.capacity with
    ⟨hne, hrun⟩ | ⟨pre, e, post, t', rfl, he, hrun, htree, -⟩
  · exact iff_of_true (Or.inl hrun) fun e he hu => absurd ((heq e).mpr hu) (hne e he)
  · constructor
    · rintro (hrun' | ⟨pre', post', t'', hes, -⟩)
      · rw [hrun] at hrun'
        cases hrun'
      · -- the pair itself is stored, so it is the only entry with the user key
        intro x hx hxu
        have hpair : ((⟨u, rid⟩, rid) : IndexKey U × RecordId) ∈ pre ++ e :: post := by
          rw [hes]
          simp
        rw [eq_of_sorted h.tree.sorted hx hpair ((heq x).mpr hxu)]
    · intro hall
      have hu := (heq e).mp he
      have hr := hall e (by simp) hu
      obtain rfl := entry_eq (h.values e (by simp)) (show e.1 = ⟨u, rid⟩ by rw [← hu, ← hr])
      exact Or.inr ⟨pre, post, t', rfl, hrun, htree.leavesHold⟩

end Unique

/-! ## Every reachable tree -/

/-- **Step.**  A call on a unique index succeeds and leaves a unique index. -/
theorem IsIndex.step {unique : Bool} {attrCmp : U → U → Ordering} [Std.TransCmp attrCmp]
    {zeroKey : IndexKey U} {t : BplusTree (IndexKey U) RecordId}
    (h : ∃ es, IsIndex unique attrCmp zeroKey (fun _ => True) t es) (op : IndexOp U) :
    ∃ r t', op.apply unique attrCmp zeroKey t = .ok (r, t') ∧
      ∃ es, IsIndex unique attrCmp zeroKey (fun _ => True) t' es := by
  have hidx := h
  obtain ⟨es, h⟩ := h
  cases op with
  | insertEntry u rid =>
    rcases h.insertEntry u rid trivial with ⟨_, _, _, hrun⟩ | ⟨_, _, t', _, _, hrun, h'⟩
    · exact ⟨_, t, hrun, hidx⟩
    · exact ⟨_, t', hrun, _, h'⟩
  | deleteEntry u rid =>
    rcases h.deleteEntry u rid with ⟨_, hrun⟩ | ⟨_, _, _, t', _, _, hrun, h'⟩
    · exact ⟨_, t, hrun, hidx⟩
    · exact ⟨_, t', hrun, _, h'⟩
  | getEntry u rest => exact ⟨_, t, h.getEntry u rest, hidx⟩

/-- **Headline.**  In every tree a run of calls on a unique index can reach, deletions are exact where
    the user key is stored with the record identifier given or not at all, and scans stay inside
    their bounds where no exclusive bound is a stored user key; elsewhere they are not. -/
theorem unique_index_iff (attrCmp : U → U → Ordering) [Std.TransCmp attrCmp]
    [Std.LawfulEqCmp attrCmp] (zeroKey : IndexKey U) (attrLength : Nat)
    (internalMaxSize leafMaxSize : Int) (ops : List (IndexOp U))
    (hleaf : 4 ≤ (create attrLength internalMaxSize leafMaxSize :
      BplusTree (IndexKey U) RecordId).fileHeader.leafMaxSize)
    (hinternal : 6 ≤ (create attrLength internalMaxSize leafMaxSize :
      BplusTree (IndexKey U) RecordId).fileHeader.internalMaxSize) :
    ∃ results t es, runOps (IndexOp.apply true attrCmp zeroKey)
        (create attrLength internalMaxSize leafMaxSize) ops = .ok (results, t) ∧
      LeavesHold t es ∧
      (∀ u rid, DeleteExact attrCmp t es u rid ↔ ∀ e ∈ es, e.1.userKey = u → e.1.rid = rid) ∧
      ∀ left right, ScanInside attrCmp t es left right ↔
        rangeRejected true attrCmp left right = true ∨
          ∀ e ∈ es, ¬ AtExclusiveBound attrCmp left right e.1.userKey := by
  have hstart : ∃ es, IsIndex true attrCmp zeroKey (fun _ => True)
      (create attrLength internalMaxSize leafMaxSize) es :=
    ⟨[], IsIndex.create ⟨hleaf, by omega, Or.inl hinternal⟩⟩
  obtain ⟨results, t, hrun, es, h⟩ := runOps_invariant
    (fun _ op h (_ : True) => IsIndex.step h op) hstart fun op (_ : op ∈ ops) => trivial
  exact ⟨results, t, es, hrun, h.tree.leavesHold, deleteExact_iff h, scanInside_iff h⟩

theorem unique_index_iff_someCalls :
    ∃ results t es, runOps (IndexOp.apply true compare (⟨0, .min⟩ : IndexKey Int)) (create 4 6 4)
        someCalls = .ok (results, t) ∧
      LeavesHold t es ∧
      (∀ u rid, DeleteExact compare t es u rid ↔ ∀ e ∈ es, e.1.userKey = u → e.1.rid = rid) ∧
      ∀ left right, ScanInside compare t es left right ↔
        rangeRejected true compare left right = true ∨
          ∀ e ∈ es, ¬ AtExclusiveBound compare left right e.1.userKey :=
  unique_index_iff compare ⟨0, .min⟩ 4 6 4 someCalls (by decide) (by decide)

/-- With 7 stored under one record identifier, `delete_entry` with another one deletes it. -/
theorem unique_delete_other_rid :
    ¬ ∀ (ops : List (IndexOp Int)) (results : List (RC × List RecordId))
      (t : BplusTree (IndexKey Int) RecordId) (es : List (IndexKey Int × RecordId)),
      runOps (IndexOp.apply true compare ⟨0, .min⟩) (create 4 6 4) ops = .ok (results, t) →
      LeavesHold t es → ∀ u rid, DeleteExact compare t es u rid := by
  intro h
  let rid : RecordId := ⟨⟨1, 0⟩, by decide, by decide⟩
  let other : RecordId := ⟨⟨1, 1⟩, by decide, by decide⟩
  have hrun : runOps (IndexOp.apply true compare (⟨0, .min⟩ : IndexKey Int)) (create 4 6 4)
    [.insertEntry 7 rid] = .ok (_, _) := rfl
  rcases h _ _ _ [(⟨7, rid⟩, rid)] hrun
    (Or.inr ⟨2, [(2, [(⟨7, rid⟩, rid)])], .leaf rfl, .cons rfl .nil, rfl⟩) 7 other with hdel | ⟨pre, post, t', hes, -⟩
  · have hrc := congrArg (fun x => x.toOption.map fun out => decide (out.1 = .recordNotExist)) hdel
    exact absurd hrc (by decide)
  · have hmem : ((⟨7, other⟩, other) : IndexKey Int × RecordId) ∈ [(⟨7, rid⟩, rid)] := by
      rw [hes]
      simp
    exact absurd (congrArg Prod.snd (List.mem_singleton.mp hmem)) (by decide)

end Miniob.Index
