/-
  Scans between user keys.

  `open` makes keys of the bounds by adding `RID::min()` or `RID::max()`.  In a non-unique index,
  where the comparator looks at the record identifier, these keys cut the entries exactly where
  the user keys and the inclusive flags say (`betweenKeys_eq`), as long as no stored record
  identifier is one of the two sentinels.

  A whole scan can still go wrong in two ways, and `scan_correct_iff` shows that there is no third
  one.  The check of the bounds compares the raw buffers and so reads the bytes behind the user
  keys; and a call that returns `LOCKED_NEED_WAIT` has already moved to the next leaf without
  resetting `iter_index_`, so the retry skips the leaf's first entries.
-/
import Miniob.Index.Run
import Miniob.Index.Scanner
import Mathlib.Data.List.FinRange

namespace Miniob.Index

open Miniob.Common Miniob.Storage BplusTree

variable {U V : Type} {attrCmp : U → U → Ordering}

/-! ## Bounds as user keys -/

/-- `u` is on the inner side of a left bound. -/
def Bound.aboveLeft (attrCmp : U → U → Ordering) (bound : Bound U) (u : U) : Bool :=
  match attrCmp u bound.userKey with
  | .lt => false
  | .eq => bound.inclusive
  | .gt => true

/-- `u` is on the inner side of a right bound. -/
def Bound.belowRight (attrCmp : U → U → Ordering) (bound : Bound U) (u : U) : Bool :=
  match attrCmp u bound.userKey with
  | .lt => true
  | .eq => bound.inclusive
  | .gt => false

/-- The user key lies within the bounds. -/
def inBounds (attrCmp : U → U → Ordering) (left right : Option (Bound U)) (u : U) : Bool :=
  left.all (·.aboveLeft attrCmp u) && right.all (·.belowRight attrCmp u)

/-- The check of the bounds on the user keys alone. -/
def userKeysRejected (attrCmp : U → U → Ordering) (left right : Option (Bound U)) : Bool :=
  match left, right with
  | some left, some right =>
    let result := attrCmp left.userKey right.userKey
    result == .gt || (result == .eq && (left.inclusive == false || right.inclusive == false))
  | _, _ => false

/-- What stands behind two equal user keys does not turn the check around. -/
def RestHarmless (attrCmp : U → U → Ordering) (left right : Option (Bound U)) : Prop :=
  ∀ l ∈ left, ∀ r ∈ right, attrCmp l.userKey r.userKey = .eq →
    if l.inclusive ∧ r.inclusive then sign (RID.compare l.rest r.rest) ≠ .gt
    else sign (RID.compare l.rest r.rest) ≠ .lt

/-- The check on the raw buffers is the check on the user keys exactly if the rest is harmless. -/
theorem rangeRejected_eq_iff {left right : Option (Bound U)} :
    rangeRejected false attrCmp left right = userKeysRejected attrCmp left right ↔
      RestHarmless attrCmp left right := by
  cases left with
  | none => simp [rangeRejected, userKeysRejected, RestHarmless]
  | some l =>
    cases right with
    | none => simp [rangeRejected, userKeysRejected, RestHarmless]
    | some r =>
      obtain ⟨lu, lrest, linc⟩ := l
      obtain ⟨ru, rrest, rinc⟩ := r
      simp only [rangeRejected, userKeysRejected, RestHarmless, keyComparator, Option.mem_some_iff,
        forall_eq', Bool.false_eq_true, if_false]
      cases hu : attrCmp lu ru with
      | lt => simp
      | gt => simp
      | eq =>
        cases hrest : sign (RID.compare lrest rrest) <;> cases linc <;> cases rinc <;> simp

section Keys

variable {unique : Bool} {b : Bound U} {e : IndexKey U × V}

theorem beforeLeft_leftKey (h : b.inclusive = true ∨ unique = false ∧ e.1.rid.Proper) :
    beforeLeft (keyCmp unique attrCmp) (some b.leftKey) e = !b.aboveLeft attrCmp e.1.userKey := by
  obtain ⟨u, rest, inclusive⟩ := b
  rw [Bool.eq_iff_iff, beforeLeft_some, Bound.leftKey, Bound.aboveLeft]
  cases inclusive with
  | true =>
    cases unique with
    | true =>
      rw [keyCmp_true]
      cases attrCmp e.1.userKey u <;> simp
    | false =>
      rw [if_pos rfl, keyCmp_min_lt]
      cases attrCmp e.1.userKey u <;> simp
  | false =>
    obtain ⟨rfl, hproper⟩ := h.resolve_left Bool.false_ne_true
    rw [if_neg Bool.false_ne_true, keyCmp_max_lt hproper]
    cases attrCmp e.1.userKey u <;> simp

theorem pastRight_rightKey (h : b.inclusive = true ∨ unique = false ∧ e.1.rid.Proper) :
    pastRight (keyCmp unique attrCmp) (some b.rightKey) e
      = !b.belowRight attrCmp e.1.userKey := by
  obtain ⟨u, rest, inclusive⟩ := b
  rw [Bool.eq_iff_iff, Bound.rightKey, Bound.belowRight, pastRight, Option.any_some, beq_iff_eq]
  cases inclusive with
  | true =>
    cases unique with
    | true =>
      rw [keyCmp_true]
      cases attrCmp e.1.userKey u <;> simp
    | false =>
      rw [if_pos rfl, keyCmp_max_gt]
      cases attrCmp e.1.userKey u <;> simp
  | false =>
    obtain ⟨rfl, hproper⟩ := h.resolve_left Bool.false_ne_true
    rw [if_neg Bool.false_ne_true, keyCmp_min_gt hproper]
    cases attrCmp e.1.userKey u <;> simp

/-- **Bounds.**  The keys `open` makes separate the entries within the bounds from the others, in a
    non-unique index or where both bounds are inclusive. -/
theorem betweenKeys_eq {left right : Option (Bound U)}
    (h : (∀ b, b ∈ left ∨ b ∈ right → b.inclusive = true) ∨ unique = false ∧ e.1.rid.Proper) :
    betweenKeys (keyCmp unique attrCmp) (left.map Bound.leftKey) (right.map Bound.rightKey) e
      = inBounds attrCmp left right e.1.userKey := by
  have hleft : (!beforeLeft (keyCmp unique attrCmp) (left.map Bound.leftKey) e)
      = left.all (·.aboveLeft attrCmp e.1.userKey) := by
    cases left with
    | none => rfl
    | some b =>
      rw [Option.map_some, beforeLeft_leftKey (h.imp_left fun h => h b (Or.inl rfl)), Bool.not_not]
      rfl
  have hright : (!pastRight (keyCmp unique attrCmp) (right.map Bound.rightKey) e)
      = right.all (·.belowRight attrCmp e.1.userKey) := by
    cases right with
    | none => rfl
    | some b =>
      rw [Option.map_some, pastRight_rightKey (h.imp_left fun h => h b (Or.inr rfl)), Bool.not_not]
      rfl
  rw [betweenKeys, inBounds, hleft, hright]

end Keys

/-! ## When a scan is right -/

/-- The range is accepted or rejected by its user keys and flags, and if it is accepted, the scan
    returns the entries within the bounds, in index order and each once, and then the end. -/
def ScanCorrect (attrCmp : U → U → Ordering) (trySlatch : PageNum → Bool)
    (t : BplusTree (IndexKey U) V) (segs : List (Seg (IndexKey U) V))
    (left right : Option (Bound U)) : Prop :=
  rangeRejected false attrCmp left right = userKeysRejected attrCmp left right ∧
  (rangeRejected false attrCmp left right = false →
    t.scan false attrCmp trySlatch left right = .ok (.recordEof,
      ((segs.flatMap Seg.items).filter fun e => inBounds attrCmp left right e.1.userKey).map
        Prod.snd))

variable [Std.TransCmp attrCmp]

/-- An empty range has no leaf inside. -/
theorem not_refusedInside_of_rejected {trySlatch : PageNum → Bool}
    {segs : List (Seg (IndexKey U) V)} {left right : Option (Bound U)}
    (h : userKeysRejected attrCmp left right = true) :
    ¬ RefusedInside (fun e => inBounds attrCmp left right e.1.userKey) trySlatch segs := by
  rintro ⟨-, y, -, -, -, ⟨e, -, hin⟩, -⟩
  cases left with
  | none => cases h
  | some l =>
    cases right with
    | none => cases h
    | some r =>
      simp only [inBounds, Option.all_some, Bool.and_eq_true, Bound.aboveLeft, Bound.belowRight]
        at hin
      simp only [userKeysRejected, Bool.or_eq_true, Bool.and_eq_true, beq_iff_eq] at h
      obtain ⟨hl, hr⟩ := hin
      have hswap : attrCmp l.userKey e.1.userKey = (attrCmp e.1.userKey l.userKey).swap :=
        Std.OrientedCmp.eq_swap
      cases hel : attrCmp e.1.userKey l.userKey with
      | lt => simp [hel] at hl
      | eq =>
        have hlr : attrCmp l.userKey r.userKey = attrCmp e.1.userKey r.userKey :=
          (Std.TransCmp.congr_left hel).symm
        rw [hlr] at h
        cases her : attrCmp e.1.userKey r.userKey <;> simp_all
      | gt =>
        have hle : attrCmp l.userKey e.1.userKey = .lt := by rw [hswap, hel]; rfl
        cases her : attrCmp e.1.userKey r.userKey with
        | gt => simp [her] at hr
        | eq => simp [Std.TransCmp.lt_of_lt_of_eq hle her] at h
        | lt => simp [Std.TransCmp.lt_trans hle her] at h

/-- **Headline.**  A scan of a well-formed non-unique tree is right exactly if the bytes behind equal
    user keys do not turn the check of the bounds around and no leaf inside the range is refused. -/
theorem scan_correct_iff (attrCmp : U → U → Ordering) [Std.TransCmp attrCmp]
    (zeroKey : IndexKey U) (t : BplusTree (IndexKey U) V) (segs : List (Seg (IndexKey U) V))
    (h : HasLeaves (keyCmp false attrCmp) zeroKey (fun k => k.rid.Proper) t segs)
    (trySlatch : PageNum → Bool) (left right : Option (Bound U)) :
    ScanCorrect attrCmp trySlatch t segs left right ↔
      RestHarmless attrCmp left right ∧
      ¬ RefusedInside (fun e => inBounds attrCmp left right e.1.userKey) trySlatch segs := by
  rw [ScanCorrect, rangeRejected_eq_iff]
  refine and_congr_right fun hrest => ?_
  have hcheck := rangeRejected_eq_iff.mpr hrest
  cases hrej : rangeRejected false attrCmp left right with
  | true => exact iff_of_true nofun (not_refusedInside_of_rejected (hcheck ▸ hrej))
  | false =>
    obtain ⟨s, out, hopen, hcalls, hsub, hlen⟩ := scanAt_spec h (left.map Bound.leftKey)
      (right.map Bound.rightKey) (Or.inl rfl : true = true ∨ ∀ p, trySlatch p = true)
    -- the entries of the tree have proper record identifiers
    have hbetween : ∀ e ∈ segs.flatMap Seg.items,
        betweenKeys (keyCmp false attrCmp) (left.map Bound.leftKey) (right.map Bound.rightKey) e
          = inBounds attrCmp left right e.1.userKey := by
      intro e he
      refine betweenKeys_eq (Or.inr ⟨rfl, ?_⟩)
      obtain ⟨x, hx, hex⟩ := List.mem_flatMap.mp he
      rcases h with ⟨-, rfl⟩ | ⟨Ls, hinv⟩
      · cases hx
      · exact hinv.keysQ x hx e.1 (List.mem_map_of_mem hex)
    have hfilter := List.filter_congr hbetween
    have hrefused : RefusedInside (betweenKeys (keyCmp false attrCmp) (left.map Bound.leftKey)
        (right.map Bound.rightKey)) trySlatch segs ↔
        RefusedInside (fun e => inBounds attrCmp left right e.1.userKey) trySlatch segs := by
      refine exists_congr fun A => exists_congr fun y => exists_congr fun B =>
        and_congr_right fun hcut => and_congr ?_ (and_congr_left fun _ => ?_)
      · refine exists_congr fun a => and_congr_right fun ha => ?_
        rw [hbetween a (by rw [hcut, List.flatMap_append]; exact List.mem_append_left _ ha)]
      · refine exists_congr fun e => and_congr_right fun he => ?_
        rw [hbetween e (by
          rw [hcut]
          exact List.mem_flatMap.mpr ⟨y, by simp, List.mem_of_mem_head? he⟩)]
    have hscan : t.scan false attrCmp trySlatch left right = .ok (.recordEof, out.map Prod.snd) := by
      rw [scan, openScanner, hrej, hopen]
      exact hcalls
    rw [hfilter] at hsub hlen
    rw [hscan, ← hrefused, ← hlen]
    constructor
    · intro heq
      have := congrArg List.length (Prod.mk.inj (Except.ok.inj (heq rfl))).2
      simpa using this
    · intro hlen' _
      rw [hsub.eq_of_length hlen']

/-- Five rows of a page. -/
def rowRid (n : Fin 5) : RecordId where
  toRID := ⟨1, n.val⟩
  pageRange := by
    show (0 : Int) ≤ 1 ∧ (1 : Int) < 2 ^ 31
    decide
  slotRange := ⟨Int.natCast_nonneg _, by omega⟩

def fiveInsertions : List (TreeOp (IndexKey Int) RecordId) :=
  (List.finRange 5).map fun n => .insertEntry ⟨n.val, rowRid n⟩ (rowRid n)

/-- Two leaves: the pages 2 and 3. -/
def twoLeaves : BplusTree (IndexKey Int) RecordId :=
  match runOps (TreeOp.apply (keyCmp false compare) ⟨0, .min⟩) (create 4 6 4) fiveInsertions with
  | .ok (_, t) => t
  | .error _ => create 4 6 4

/-- A scan of the whole tree is right if no latch is refused, and loses rows if page 3 is. -/
theorem scan_correct_iff_refused : ∃ segs,
    HasLeaves (keyCmp false compare) (⟨0, .min⟩ : IndexKey Int) (fun k => k.rid.Proper) twoLeaves segs ∧
    ScanCorrect compare (fun _ => true) twoLeaves segs none none ∧
    ¬ ScanCorrect compare (fun p => p ≠ 3) twoLeaves segs none none := by
  have hcap : Capacity (keyCmp false compare) (⟨0, .min⟩ : IndexKey Int) (fun k => k.rid.Proper)
      (create 4 6 4 : BplusTree (IndexKey Int) RecordId).fileHeader := ⟨by decide, by decide, Or.inl (by decide)⟩
  obtain ⟨rcs, t, hrun, ⟨es, htree⟩, -⟩ := runOps_sound (Sound.create hcap) fiveInsertions (by
    intro op hop
    obtain ⟨n, -, rfl⟩ := List.mem_map.mp hop
    exact (by decide : ∀ n, (rowRid n).Proper) n)
  obtain rfl : twoLeaves = t := by
    unfold twoLeaves
    rw [hrun]
  obtain ⟨segs, hleaves⟩ : ∃ segs,
      HasLeaves (keyCmp false compare) (⟨0, .min⟩ : IndexKey Int) (fun k => k.rid.Proper) twoLeaves segs := by
    rcases htree with ⟨hempty, -⟩ | ⟨segs, Ls, hinv, -⟩
    · exact ⟨[], Or.inl ⟨hempty, rfl⟩⟩
    · exact ⟨segs, Or.inr ⟨Ls, hinv⟩⟩
  have hright : ScanCorrect compare (fun _ => true) twoLeaves segs none none :=
    (scan_correct_iff compare ⟨0, .min⟩ twoLeaves segs hleaves (fun _ => true) none none).mpr
      ⟨nofun, fun ⟨_, _, _, _, _, _, hrefused⟩ => Bool.noConfusion hrefused⟩
  refine ⟨segs, hleaves, hright, fun hwrong => ?_⟩
  have hall : twoLeaves.scan false compare (fun _ => true) none none = .ok (.recordEof, _) := hright.2 rfl
  have hfew : twoLeaves.scan false compare (fun p => p ≠ 3) none none = .ok (.recordEof, _) := hwrong.2 rfl
  have hdiff : twoLeaves.scan false compare (fun p => p ≠ 3) none none ≠
    twoLeaves.scan false compare (fun _ => true) none none := by decide +kernel
  exact hdiff (hfew.trans hall.symm)

/-- The point range `[5, 5]` is rejected when the bytes behind the left bound are greater, as record
    identifiers, than those behind the right one. -/
theorem scan_rejects_point_range :
    ¬ ∀ (t : BplusTree (IndexKey Int) RecordId) (segs : List (Seg (IndexKey Int) RecordId)),
      HasLeaves (keyCmp false compare) ⟨0, .min⟩ (fun k => k.rid.Proper) t segs →
      ∀ (trySlatch : PageNum → Bool) (left right : Option (Bound Int)),
        ScanCorrect compare trySlatch t segs left right := by
  intro h
  have hcheck := (h (create 4 6 4) [] (Or.inl ⟨rfl, rfl⟩) (fun _ => true) (some ⟨5, ⟨1, 1⟩, true⟩)
    (some ⟨5, ⟨0, 0⟩, true⟩)).1
  revert hcheck
  decide

end Miniob.Index
