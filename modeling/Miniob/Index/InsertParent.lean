/-
  `insert_entry_into_parent`: a new node next to an old one, recorded on every level above.

  The induction is on the levels.  One call edits the parent's items, and, when the parent is full,
  splits it first; the call on the next level then does for the split parent what this call did
  for the split child.  What survives a call is stated for all levels at once (`insertEntryIntoParent_spec`):
  the new pair stands right after the old one, and no page outside the levels above is changed
  except for the parent fields of the two nodes involved.
-/
import Miniob.Index.Levels

namespace Miniob.Index

open Miniob.Common Miniob.Storage BplusTree

variable {K V : Type}

/-! ## Splitting an internal node -/

/-- What `split` does to an internal node whose items are `l ++ r`, cut in the middle. -/
theorem splitInternal_spec {t : BplusTree K V} {p par : PageNum} {l r : List (K × PageNum)}
    (hb : t.body p = some (.internal (l ++ r))) (hp : t.parentOf p = some par)
    (hl : l.length = (l ++ r).length / 2) (hr : ∀ c ∈ r, (t.body c.2).isSome) :
    ∃ t', t.splitInternal p = .ok (t.pool.freePage, t') ∧ t'.fileHeader = t.fileHeader ∧
      (∀ x, t'.body x = if x = t.pool.freePage then some (.internal r)
        else if x = p then some (.internal l) else t.body x) ∧
      ∀ x, t'.parentOf x = if x ∈ r.map Prod.snd then some t.pool.freePage
        else if x = t.pool.freePage then some par else t.parentOf x := by
  have hpf : p ≠ t.pool.freePage := ne_freePage hb
  let t₁ := (t.allocateNode (.internal [])).2.setParent t.pool.freePage par
  let t₂ := (t₁.setBody t.pool.freePage (.internal r)).setParents t.pool.freePage (r.map Prod.snd)
  -- the children that move exist
  have hins : ∀ c ∈ r.map Prod.snd, (t₁.body c).isSome := by
    intro c hc
    obtain ⟨item, hitem, rfl⟩ := List.mem_map.mp hc
    simp only [t₁, body_setParent, body_allocateNode]
    split
    · rfl
    · exact hr item hitem
  refine ⟨t₂.setBody p (.internal l), ?_, by simp [t₁, t₂], fun x => ?_, fun x => ?_⟩
  -- the second half goes to the fresh page, whose number is handed back
  · rw [splitInternal, getPage_eq hb hp, getInternal_eq hb]
    simp only [bind, Except.bind, allocateNode_fst, ← hl, List.drop_left, List.take_left]
    rw [insertItems_eq (recoverInsertItems_zero r) hins, List.append_nil]
    rfl
  -- the items: the fresh page has `r`, the split one keeps `l`
  · simp only [t₁, t₂, body_setBody, body_setParents, body_setParent, body_allocateNode]
    by_cases hx : x = t.pool.freePage
    · simp [hx, hpf.symm]
    · by_cases hxp : x = p <;> simp [hx, hxp, hb, hpf]
  -- the parents: those of `r` now have the fresh page
  · simp only [t₁, t₂, parentOf_setBody, parentOf_setParents, parentOf_setParent,
      parentOf_allocateNode]
    by_cases hx : x = t.pool.freePage
    · simp [hx]
    · by_cases hxr : x ∈ r.map Prod.snd
      · obtain ⟨c, hc, rfl⟩ := List.mem_map.mp hxr
        obtain ⟨b, hbc⟩ := Option.isSome_iff_exists.mp (hr c hc)
        obtain ⟨q, hq⟩ := exists_parentOf hbc
        simp [hx, hxr, hq]
      · simp [hx, hxr]

/-- The two nodes a split leaves. -/
theorem splitInternal_nodes {t : BplusTree K V} {y : Seg K PageNum} {l rest : List (K × PageNum)}
    {m : K × PageNum} (hy : NodeOK t y) (hi : y.items = l ++ m :: rest)
    (hl : l.length = y.items.length / 2) (hne : l ≠ []) (hnd : (y.items.map Prod.snd).Nodup)
    (hex : ∀ c ∈ y.items, (t.body c.2).isSome) :
    ∃ t', t.splitInternal y.page = .ok (t.pool.freePage, t') ∧ t'.fileHeader = t.fileHeader ∧
      NodeOK t' ⟨y.sep, y.page, l⟩ ∧ NodeOK t' ⟨m.1, t.pool.freePage, m :: rest⟩ ∧
      (∀ x, x ≠ y.page → x ≠ t.pool.freePage → t'.body x = t.body x) ∧
      ∀ x, x ≠ t.pool.freePage → x ∉ y.items.map Prod.snd → t'.parentOf x = t.parentOf x := by
  obtain ⟨par, hpar⟩ := exists_parentOf hy.body
  obtain ⟨t', hsplit, hhead, hbody, hparent⟩ := splitInternal_spec (hi ▸ hy.body) hpar (hi ▸ hl)
    fun c hc => hex c (by simp [hi, hc])
  have hyf : y.page ≠ t.pool.freePage := ne_freePage hy.body
  -- the two halves, and then the rest of the tree
  refine ⟨t', hsplit, hhead, ⟨?_, fun c hc => ?_, ?_⟩, ⟨?_, fun c hc => ?_, rfl⟩, fun x hx hxf => ?_,
    fun x hxf hx => ?_⟩
  · rw [hbody, if_neg hyf, if_pos rfl]
  · -- a child of the left half is not one of the right half, nor the fresh page
    have hcf : c.2 ≠ t.pool.freePage := by
      obtain ⟨b, hb⟩ := Option.isSome_iff_exists.mp (hex c (by simp [hi, hc]))
      exact ne_freePage hb
    have hcr : c.2 ∉ (m :: rest).map Prod.snd := by
      rw [hi, List.map_append] at hnd
      exact fun h => (List.nodup_append.mp hnd).2.2 _ (List.mem_map_of_mem hc) _ h rfl
    rw [hparent, if_neg hcr, if_neg hcf]
    exact hy.parent c (by simp [hi, hc])
  · have := hy.sep
    rw [hi, List.head?_append_of_ne_nil _ hne] at this
    exact this
  · rw [hbody, if_pos rfl]
  · rw [hparent, if_pos (List.mem_map_of_mem hc)]
  · rw [hbody, if_neg hxf, if_neg hx]
  · rw [hparent, if_neg (fun h => hx (by rw [hi, List.map_append]; exact List.mem_append_right _ h)),
      if_neg hxf]

/-! ## The parent's items -/

section Items

variable {cmp : K → K → Ordering} [Std.TransCmp cmp]

/-- The new pair is inserted right after the pair of the split node. -/
theorem internalInsert_eq {A B : List (K × PageNum)} {z : K × PageNum} {key : K} (q : PageNum)
    (hs : TailSorted cmp (A ++ z :: B)) (hA : A ≠ [] → cmp z.1 key = .lt)
    (hB : ∀ b ∈ B.head?, cmp key b.1 = .lt) :
    internalInsert cmp (A ++ z :: B) key q = .ok (A ++ z :: (key, q) :: B) := by
  rw [internalInsert, insertPosition_eq hs hA hB,
    show A.length + 1 = (A ++ [z]).length by simp, ← List.singleton_append, ← List.append_assoc,
    recoverInsertItems_append]
  simp

omit [Std.TransCmp cmp] in
/-- A position of `l ++ r` is in `r` or in `l`. -/
theorem cut_cases {α : Type} {l r A B : List α} {z : α} (h : l ++ r = A ++ z :: B) :
    (∃ C, A = l ++ C ∧ r = C ++ z :: B) ∨ ∃ C, l = A ++ z :: C ∧ B = C ++ r := by
  rcases List.append_eq_append_iff.mp h with ⟨C, hA, hr⟩ | ⟨C, hl, hz⟩
  · exact Or.inl ⟨C, hA, hr⟩
  · cases C with
    | nil => exact Or.inl ⟨[], by simpa using hl.symm, by simpa using hz.symm⟩
    | cons c C =>
      obtain ⟨rfl, rfl⟩ := List.cons_eq_cons.mp hz
      exact Or.inr ⟨C, hl, rfl⟩

end Items

/-- A node that takes a new child: its items and the child's parent field are written. -/
theorem NodeOK.hang {t : BplusTree K V} {y : Seg K PageNum} {A B : List (K × PageNum)}
    {z : K × PageNum} {newFrame : PageNum} (hy : NodeOK t y) (hi : y.items = A ++ z :: B)
    (hnew : (t.body newFrame).isSome) (key : K) :
    NodeOK ((t.setBody y.page (.internal (A ++ z :: (key, newFrame) :: B))).setParent newFrame
      y.page) ⟨y.sep, y.page, A ++ z :: (key, newFrame) :: B⟩ := by
  refine ⟨?_, fun c hc => ?_, ?_⟩
  · rw [body_setParent, body_setBody, if_pos rfl, hy.body]
    rfl
  -- the new page hangs under `y`, and the other children do so already
  · rw [parentOf_setParent, parentOf_setBody]
    by_cases hcn : c.2 = newFrame
    · obtain ⟨b, hb⟩ := Option.isSome_iff_exists.mp hnew
      obtain ⟨q, hq⟩ := exists_parentOf hb
      rw [if_pos hcn, hcn, hq]
      rfl
    · rw [if_neg hcn]
      refine hy.parent c ?_
      simp only [List.mem_append, List.mem_cons] at hc
      rw [hi]
      rcases hc with hc | rfl | rfl | hc
      · simp [hc]
      · simp
      · exact absurd rfl hcn
      · simp [hc]
  -- the first key is not the new one
  · have := hy.sep
    rw [hi] at this
    cases A with
    | nil => exact this
    | cons a A => exact this

/-- The write of one node leaves the other nodes as they are. -/
theorem NodeOK.frame {t : BplusTree K V} {x : Seg K PageNum} {p q newFrame : PageNum}
    {b : NodeBody K V} (hx : NodeOK t x) (hp : x.page ≠ p)
    (hnew : newFrame ∉ x.items.map Prod.snd) :
    NodeOK ((t.setBody p b).setParent newFrame q) x := by
  refine hx.congr ?_ fun c hc => ?_
  · rw [body_setParent, body_setBody, if_neg hp]
  · rw [parentOf_setParent, parentOf_setBody, if_neg]
    exact fun h => hnew (h ▸ List.mem_map_of_mem hc)

/-! ## A full parent -/

section Full

variable {cmp : K → K → Ordering} [Std.TransCmp cmp] (zeroKey : K)

/-- A full parent `y` is split into `y` and a fresh node, the new pair goes into the half that
    holds its neighbour, and the fresh node is handed to the level above. -/
theorem insertEntryIntoParent_full {t : BplusTree K V} {y : Seg K PageNum}
    {A B : List (K × PageNum)} {k : K} {frame newFrame : PageNum} {key : K} (fuel : Nat)
    (hy : NodeOK t y) (hi : y.items = A ++ (k, frame) :: B) (hframe : (t.body frame).isSome)
    (hmax : 2 ≤ t.fileHeader.internalMaxSize)
    (hlen : y.items.length = t.fileHeader.internalMaxSize)
    (hs : TailSorted cmp y.items) (hA : A ≠ [] → cmp k key = .lt)
    (hB : ∀ b ∈ B.head?, cmp key b.1 = .lt) (hnew : (t.body newFrame).isSome)
    (hnd : (newFrame :: y.items.map Prod.snd).Nodup) (hex : ∀ c ∈ y.items, (t.body c.2).isSome) :
    ∃ t' l r sk, insertEntryIntoParent cmp zeroKey (fuel + 1) t frame newFrame key
        = insertEntryIntoParent cmp zeroKey fuel t' y.page t.pool.freePage sk ∧
      l ++ r = A ++ (k, frame) :: (key, newFrame) :: B ∧
      NodeOK t' ⟨y.sep, y.page, l⟩ ∧ NodeOK t' ⟨sk, t.pool.freePage, r⟩ ∧
      t.fileHeader.internalMaxSize / 2 ≤ l.length ∧ l.length ≤ t.fileHeader.internalMaxSize ∧
      t.fileHeader.internalMaxSize / 2 ≤ r.length ∧ r.length ≤ t.fileHeader.internalMaxSize ∧
      t'.fileHeader = t.fileHeader ∧
      (∀ x, x ≠ y.page → x ≠ t.pool.freePage → t'.body x = t.body x) ∧
      ∀ x, x ≠ t.pool.freePage → x ∉ newFrame :: y.items.map Prod.snd →
        t'.parentOf x = t.parentOf x := by
  obtain ⟨l, r, hlr, hl⟩ : ∃ l r, y.items = l ++ r ∧ l.length = y.items.length / 2 :=
    ⟨y.items.take (y.items.length / 2), y.items.drop (y.items.length / 2),
      (List.take_append_drop _ _).symm, by simp; omega⟩
  have hlen' : l.length + r.length = t.fileHeader.internalMaxSize := by
    rw [← hlen, hlr, List.length_append]
  have hlne : l ≠ [] := by
    rintro rfl
    simp at hl
    omega
  obtain ⟨m, rest, rfl⟩ : ∃ m rest, r = m :: rest := by
    refine List.exists_cons_of_ne_nil ?_
    rintro rfl
    simp at hlen'
    omega
  have hnd' := List.nodup_cons.mp hnd
  obtain ⟨t₁, hsplit, hhead, hl₁, hr₁, hbody, hparent⟩ :=
    splitInternal_nodes hy hlr hl hlne hnd'.2 hex
  have hyf : y.page ≠ t.pool.freePage := ne_freePage hy.body
  have hnew₁ : (t₁.body newFrame).isSome := by
    by_cases hnf : newFrame = t.pool.freePage
    · rw [hnf, hr₁.body]
      rfl
    by_cases hny : newFrame = y.page
    · rw [hny, hl₁.body]
      rfl
    rwa [hbody _ hny hnf]
  obtain ⟨b, hb⟩ := Option.isSome_iff_exists.mp hframe
  -- the code up to the choice of the half
  have hcode : insertEntryIntoParent cmp zeroKey (fuel + 1) t frame newFrame key = (do
      let t₂ ←
        if cmp key m.1 = .gt then do
          let array ← internalInsert cmp (m :: rest) key newFrame
          (t₁.setBody t.pool.freePage (.internal array)).setParentPageNum newFrame t.pool.freePage
        else do
          let array ← internalInsert cmp l key newFrame
          (t₁.setBody y.page (.internal array)).setParentPageNum newFrame y.page
      let firstKey ← keyAt (← t₂.getInternal t.pool.freePage) 0
      insertEntryIntoParent cmp zeroKey fuel t₂ y.page t.pool.freePage firstKey) := by
    rw [insertEntryIntoParent, getPage_eq hb (hy.parent (k, frame) (by simp [hi]))]
    simp only [bind, Except.bind, ne_invalid_of_body hy.body, if_false, getInternal_eq hy.body,
      hlen, Nat.lt_irrefl, hsplit, getInternal_eq hl₁.body, getInternal_eq hr₁.body, keyAt_zero]
  have hnl : newFrame ∉ l.map Prod.snd := fun h => hnd'.1 (by simp [hlr]; simp at h; exact Or.inl h)
  have hnr : newFrame ∉ (m :: rest).map Prod.snd := fun h =>
    hnd'.1 (by rw [hlr, List.map_append]; exact List.mem_append_right _ h)
  have hparent₂ : ∀ x, x ≠ t.pool.freePage → x ∉ newFrame :: y.items.map Prod.snd →
      ∀ p b q, ((t₁.setBody p b).setParent newFrame q).parentOf x = t.parentOf x := by
    intro x hxf hx p b q
    rw [parentOf_setParent, parentOf_setBody, if_neg (fun h => hx (by simp [h]))]
    exact hparent x hxf fun h => hx (List.mem_cons_of_mem _ h)
  have hcut := hlr.symm.trans hi
  rw [hlr] at hs
  rcases cut_cases hcut with ⟨C, hAC, hrC⟩ | ⟨C, hlC, hBC⟩
  · -- the neighbour is in the right half
    have hsr : TailSorted cmp (C ++ (k, frame) :: B) := by
      rw [hrC, ← List.append_nil (C ++ _), ← List.append_assoc] at hs
      exact hs.part
    have hgt : cmp key m.1 = .gt := by
      have hk := hA (by simp [hAC, hlne])
      cases C with
      | nil =>
        obtain ⟨rfl, -⟩ := List.cons_eq_cons.mp hrC
        exact gt_of_lt hk
      | cons d C =>
        obtain ⟨rfl, hrest⟩ := List.cons_eq_cons.mp hrC
        exact gt_of_lt (Std.TransCmp.lt_trans
          (hs.lt_right hlne (k, frame) (by simp [hrest])) hk)
    have hins := internalInsert_eq newFrame hsr (fun hC => hA (by simp [hAC, hlne])) hB
    refine ⟨(t₁.setBody t.pool.freePage (.internal (C ++ (k, frame) :: (key, newFrame) :: B))).setParent
      newFrame t.pool.freePage, l, _, m.1, ?_, by simp [hAC], hl₁.frame hyf hnl,
      hr₁.hang hrC hnew₁ key, by omega, by omega, ?_, ?_, hhead, fun x hxy hxf => ?_,
      fun x hxf hx => hparent₂ x hxf hx _ _ _⟩
    · rw [hcode, if_pos hgt, hrC]
      simp only [hins, bind, Except.bind]
      have hnode := hr₁.hang hrC hnew₁ key
      rw [setParentPageNum_eq _ (by simp [hnew₁])]
      simp only [getInternal_eq hnode.body]
      cases C with
      | nil =>
        obtain ⟨rfl, -⟩ := List.cons_eq_cons.mp hrC
        rfl
      | cons d C =>
        obtain ⟨rfl, -⟩ := List.cons_eq_cons.mp hrC
        rfl
    · have := congrArg List.length hrC
      simp at this hlen' ⊢
      omega
    · have := congrArg List.length hrC
      simp at this hlen' ⊢
      omega
    · rw [body_setParent, body_setBody, if_neg hxf, hbody x hxy hxf]
  · -- the neighbour is in the left half
    have hsl : TailSorted cmp (A ++ (k, frame) :: C) := by
      rw [hlC, ← List.nil_append (A ++ _)] at hs
      exact hs.part
    have hBC' : ∀ b ∈ C.head?, cmp key b.1 = .lt := by
      intro b hb
      exact hB b (by simp [hBC, List.head?_append, Option.mem_def.mp hb])
    have hngt : cmp key m.1 ≠ .gt := by
      have hlt : cmp key m.1 = .lt := by
        cases C with
        | nil => exact hB m (by simp [hBC])
        | cons d C =>
          rw [hlC, List.append_assoc, List.cons_append] at hs
          exact Std.TransCmp.lt_trans (hBC' d (by simp))
            ((List.pairwise_cons.mp hs.right).1 m (by simp))
      rw [hlt]
      nofun
    have hins := internalInsert_eq newFrame hsl hA hBC'
    refine ⟨(t₁.setBody y.page (.internal (A ++ (k, frame) :: (key, newFrame) :: C))).setParent
      newFrame y.page, _, m :: rest, m.1, ?_, by simp [hBC], hl₁.hang hlC hnew₁ key,
      hr₁.frame hyf.symm hnr, ?_, ?_, by omega, by omega, hhead, fun x hxy hxf => ?_,
      fun x hxf hx => hparent₂ x hxf hx _ _ _⟩
    · rw [hcode, if_neg hngt, hlC]
      simp only [hins, bind, Except.bind]
      rw [setParentPageNum_eq _ (by simp [hnew₁])]
      simp only [getInternal_eq (hr₁.frame (q := y.page) hyf.symm hnr).body]
      rfl
    · have := congrArg List.length hlC
      simp at this ⊢
      omega
    · have := congrArg List.length hlC
      simp at this hlen' ⊢
      omega
    · rw [body_setParent, body_setBody, if_neg hxy, hbody x hxy hxf]

end Full

/-! ## All levels -/

section Levels

variable {cmp : K → K → Ordering} [Std.TransCmp cmp] {zeroKey : K}

/-- The old root and its new neighbour get a new root above them. -/
theorem insertEntryIntoParent_root {t : BplusTree K V} {frame newFrame : PageNum}
    (cmp : K → K → Ordering) (key : K) (fuel : Nat) (hframe : (t.body frame).isSome)
    (hnew : (t.body newFrame).isSome)
    (hp : t.parentOf frame = some bpInvalidPageNum) :
    ∃ t', insertEntryIntoParent cmp zeroKey (fuel + 1) t frame newFrame key = .ok t' ∧
      Levels zeroKey t' [(zeroKey, frame), (key, newFrame)]
        [[⟨zeroKey, t.pool.freePage, [(zeroKey, frame), (key, newFrame)]⟩]] ∧
      LevelsFrame t t' [frame, newFrame] []
        [[⟨zeroKey, t.pool.freePage, [(zeroKey, frame), (key, newFrame)]⟩]] := by
  -- the new root is the page that is free
  obtain ⟨b, hb⟩ := Option.isSome_iff_exists.mp hframe
  obtain ⟨b', hb'⟩ := Option.isSome_iff_exists.mp hnew
  obtain ⟨q', hq'⟩ := exists_parentOf hb'
  have hff := ne_freePage hb
  have hnf := ne_freePage hb'
  let t₁ := (t.allocateNode (.internal [(zeroKey, frame), (key, newFrame)])).2
  let t' := ((t₁.setParent frame t.pool.freePage).setParent newFrame
    t.pool.freePage).updateRootPageNum t.pool.freePage
  -- what the code leaves, page by page
  have hbody : ∀ x, t'.body x = if x = t.pool.freePage
      then some (.internal [(zeroKey, frame), (key, newFrame)]) else t.body x := by
    intro x
    simp only [t', t₁, body_updateRootPageNum, body_setParent, body_allocateNode]
  have hparent : ∀ x, t'.parentOf x = if x = frame ∨ x = newFrame then some t.pool.freePage
      else if x = t.pool.freePage then some bpInvalidPageNum else t.parentOf x := by
    intro x
    simp only [t', t₁, parentOf_updateRootPageNum, parentOf_setParent, parentOf_allocateNode]
    by_cases hxn : x = newFrame
    · simp only [hxn, if_true, hnf, if_false, hq', or_true]
      split <;> rfl
    · by_cases hxf : x = frame
      · simp [hxf, hff, hp]
      · simp [hxf, hxn]
  refine ⟨t', ?_, ⟨fun x hx => ?_, by simp, rfl, ?_⟩, rfl, rfl, fun p hp _ => ?_, fun p hp hps _ => ?_,
    fun p hp => ?_, by simp [pages]⟩
  -- both children are given the new parent, one after the other
  · rw [insertEntryIntoParent, getPage_eq hb hp]
    simp only [bind, Except.bind, if_true, allocateNode_fst]
    rw [setParentPageNum_eq _ (by rw [body_allocateNode, if_neg hff, hb]; rfl)]
    simp only []
    rw [setParentPageNum_eq _ (by rw [body_setParent, body_allocateNode, if_neg hnf, hb']; rfl)]
    rfl
  · rw [List.mem_singleton.mp hx]
    refine ⟨by rw [hbody, if_pos rfl], fun c hc => ?_, rfl⟩
    rw [hparent, if_pos]
    simp only [List.mem_cons, List.not_mem_nil, or_false] at hc
    rcases hc with rfl | rfl <;> simp
  · rw [show t'.fileHeader.rootPage = t.pool.freePage from rfl, hparent,
      if_neg (by simp [hff.symm, hnf.symm]), if_pos rfl]
  · obtain ⟨c, hc⟩ := Option.isSome_iff_exists.mp hp
    rw [hbody, if_neg (ne_freePage hc)]
  -- only the two children have a new parent
  · obtain ⟨c, hc⟩ := Option.isSome_iff_exists.mp hp
    rw [hparent, if_neg (by simpa using hps), if_neg (ne_freePage hc)]
  · obtain rfl : p = t.pool.freePage := by simpa [pages] using hp
    exact Or.inr (body_freePage t)

/-- The situation in which `insert_entry_into_parent` is called: `newFrame` is not listed above yet,
    its place is right after `frame`. -/
structure PendingSplit (cmp : K → K → Ordering) (zeroKey : K) (t : BplusTree K V)
    (A : List (K × PageNum)) (k : K) (frame : PageNum) (key : K) (newFrame : PageNum)
    (B : List (K × PageNum)) (Ls : List (Level K)) : Prop where
  /-- The levels above know `frame` only. -/
  levels : Levels zeroKey t (A ++ (k, frame) :: B) Ls
  /-- No node is too full. -/
  sizes : Sizes t.fileHeader.internalMaxSize Ls
  /-- The key of the new page lies between its neighbours. -/
  sorted : TailSorted cmp (A ++ (k, frame) :: (key, newFrame) :: B)
  /-- No page is listed twice. -/
  nodup : ((A ++ (k, frame) :: (key, newFrame) :: B).map Prod.snd ++ pages Ls).Nodup
  /-- The pages below exist, the new one included. -/
  isSome : ∀ z ∈ A ++ (k, frame) :: (key, newFrame) :: B, (t.body z.2).isSome

namespace PendingSplit

variable {t : BplusTree K V} {LA LB : Level K} {y : Seg K PageNum} {ia ib : List (K × PageNum)}
  {k key : K} {frame newFrame : PageNum} {Ls : List (Level K)}

omit [Std.TransCmp cmp] in
theorem isSome_items (h : PendingSplit cmp zeroKey t (LA.flatMap Seg.items ++ ia) k frame key
    newFrame (ib ++ LB.flatMap Seg.items) Ls) (hy : y.items = ia ++ (k, frame) :: ib) :
    ∀ c ∈ (LA ++ y :: LB).flatMap Seg.items, (t.body c.2).isSome := by
  intro c hc
  refine h.isSome c ?_
  simp only [List.flatMap_append, List.flatMap_cons, hy, List.mem_append, List.mem_cons] at hc ⊢
  grind

omit [Std.TransCmp cmp] in
/-- The number of pages is enough fuel. -/
theorem fuel {A B : List (K × PageNum)} (h : PendingSplit cmp zeroKey t A k frame key newFrame B Ls) :
    Ls.length < t.pool.pageCount := by
  have hlen := t.pool.length_lt_pageCount h.nodup fun p hp => by
    rw [page_isSome]
    rcases List.mem_append.mp hp with hp | hp
    · obtain ⟨z, hz, rfl⟩ := List.mem_map.mp hp
      exact h.isSome z hz
    · exact h.levels.isSome_body p hp
  have := h.levels.length_le
  rw [List.length_append] at hlen
  omega

omit [Std.TransCmp cmp] in
/-- The list with `newFrame` in it, cut at the parent. -/
theorem nodup_items (h : PendingSplit cmp zeroKey t (LA.flatMap Seg.items ++ ia) k frame key
    newFrame (ib ++ LB.flatMap Seg.items) Ls) :
    ((LA.flatMap Seg.items ++ (ia ++ (k, frame) :: (key, newFrame) :: ib) ++
      LB.flatMap Seg.items).map Prod.snd).Nodup := by
  have := (List.nodup_append.mp h.nodup).1
  simpa using this

/-- The parent has room. -/
theorem spec_notFull (h : PendingSplit cmp zeroKey t (LA.flatMap Seg.items ++ ia) k frame key
    newFrame (ib ++ LB.flatMap Seg.items) ((LA ++ y :: LB) :: Ls))
    (hy : y.items = ia ++ (k, frame) :: ib) (hroom : y.items.length < t.fileHeader.internalMaxSize)
    (fuel : Nat) :
    ∃ t' Ls', insertEntryIntoParent cmp zeroKey (fuel + 1) t frame newFrame key = .ok t' ∧
      Levels zeroKey t' (LA.flatMap Seg.items ++ ia ++ (k, frame) :: (key, newFrame) ::
        (ib ++ LB.flatMap Seg.items)) Ls' ∧
      Sizes t'.fileHeader.internalMaxSize Ls' ∧
      LevelsFrame t t' ((LA.flatMap Seg.items ++ ia ++ (k, frame) :: (key, newFrame) ::
        (ib ++ LB.flatMap Seg.items)).map Prod.snd) ((LA ++ y :: LB) :: Ls) Ls' := by
  obtain ⟨hok, -, hup⟩ := id h.levels
  have hyok := hok y (by simp)
  obtain ⟨hs, hA, hB⟩ := h.sorted.insert_inv
  have hframe : (t.body frame).isSome := h.isSome (k, frame) (by simp)
  have hnew : (t.body newFrame).isSome := h.isSome (key, newFrame) (by simp)
  have hsy : TailSorted cmp (ia ++ (k, frame) :: ib) := by
    rw [show LA.flatMap Seg.items ++ ia ++ (k, frame) :: (ib ++ LB.flatMap Seg.items)
      = LA.flatMap Seg.items ++ (ia ++ (k, frame) :: ib) ++ LB.flatMap Seg.items by simp] at hs
    exact hs.part
  have hins := internalInsert_eq newFrame hsy (fun hne => hA (by simp [hne])) fun b hb =>
    hB b (by simp [List.head?_append, Option.mem_def.mp hb])
  have hnd := h.nodup
  rw [List.nodup_append] at hnd
  obtain ⟨hndZ, hndL, hdis⟩ := hnd
  -- the new child goes behind the old one
  let items := ia ++ [(k, frame), (key, newFrame)] ++ ib
  let t' := (t.setBody y.page (.internal items)).setParent newFrame y.page
  have hpar' : ∀ p, p ≠ newFrame → t'.parentOf p = t.parentOf p := fun p hp => by
    rw [parentOf_setParent, parentOf_setBody, if_neg hp]
  have hlev : Levels zeroKey t' ((LA ++ ⟨y.sep, y.page, items⟩ :: LB).flatMap Seg.items)
      ((LA ++ ⟨y.sep, y.page, items⟩ :: LB) :: Ls) := by
    refine Levels.setItems (N := [(k, frame)]) ⟨hok, rfl, hup⟩ (by simp [hy]) rfl (by simp) rfl hndL
      ?_ (fun p _ hp => ?_) (fun c hc => ?_) (fun c hc => hpar' _ ?_) fun p hp => hpar' _ ?_
    · rw [body_setParent, body_setBody, if_pos rfl, hyok.body]
      rfl
    · rw [body_setParent, body_setBody, if_neg hp]
    · have hhang := (hyok.hang hy hnew key).parent c (by
        simp only [List.mem_cons, List.not_mem_nil, or_false] at hc
        rcases hc with rfl | rfl <;> simp)
      simpa [t', items, parentOf_setParent] using hhang
    · rintro hcn
      have hnd2 := h.nodup_items
      rw [show LA.flatMap Seg.items ++ (ia ++ (k, frame) :: (key, newFrame) :: ib) ++
        LB.flatMap Seg.items = (LA.flatMap Seg.items ++ ia ++ [(k, frame)]) ++ (key, newFrame) ::
        (ib ++ LB.flatMap Seg.items) by simp] at hnd2
      refine ne_of_nodup_append_cons hnd2 (x := c) ?_ hcn
      simp only [List.mem_append] at hc ⊢
      grind
    · rintro rfl
      exact hdis _ (by simp) _ hp rfl
  refine ⟨t', (LA ++ ⟨y.sep, y.page, items⟩ :: LB) :: Ls, ?_, by simpa [items] using hlev, ⟨?_, ?_⟩,
    LevelsFrame.single (by simp) hndL rfl rfl (fun p _ hp => ?_) fun p _ hp => hpar' p ?_⟩
  · obtain ⟨b, hb⟩ := Option.isSome_iff_exists.mp hframe
    rw [insertEntryIntoParent, getPage_eq hb (hyok.parent (k, frame) (by simp [hy]))]
    simp only [bind, Except.bind, ne_invalid_of_body hyok.body, if_false, getInternal_eq hyok.body,
      hroom, if_true]
    rw [hy, hins, show ia ++ (k, frame) :: (key, newFrame) :: ib = items by simp [items]]
    exact setParentPageNum_eq _ (by simp [hnew])
  · intro x hx
    have hsz := h.sizes.1
    rcases List.mem_append.mp hx with hx | hx
    · exact hsz x (by simp [hx])
    rcases List.mem_cons.mp hx with rfl | hx
    · have := hsz y (by simp)
      rw [show t'.fileHeader.internalMaxSize = t.fileHeader.internalMaxSize from rfl]
      simp only [items, hy, List.length_append, List.length_cons, List.length_nil] at this hroom ⊢
      omega
    · exact hsz x (by simp [hx])
  · exact h.sizes.2
  · rw [body_setParent, body_setBody, if_neg]
    rintro rfl
    exact hp (by simp)
  · rintro rfl
    exact hp (by simp)

/-- The parent is full: the level after the split, and the pending split above it. -/
theorem spec_full (h : PendingSplit cmp zeroKey t (LA.flatMap Seg.items ++ ia) k frame key
    newFrame (ib ++ LB.flatMap Seg.items) ((LA ++ y :: LB) :: Ls))
    (hy : y.items = ia ++ (k, frame) :: ib) (hfull : y.items.length = t.fileHeader.internalMaxSize)
    (hmax : 4 ≤ t.fileHeader.internalMaxSize) (fuel : Nat) :
    ∃ t₁ l r sk, insertEntryIntoParent cmp zeroKey (fuel + 1) t frame newFrame key
        = insertEntryIntoParent cmp zeroKey fuel t₁ y.page t.pool.freePage sk ∧
      l ++ r = ia ++ (k, frame) :: (key, newFrame) :: ib ∧
      PendingSplit cmp zeroKey t₁ (LA.map Seg.head) y.sep y.page sk t.pool.freePage
        (LB.map Seg.head) Ls ∧
      (∀ x ∈ LA ++ [⟨y.sep, y.page, l⟩, ⟨sk, t.pool.freePage, r⟩] ++ LB, NodeOK t₁ x ∧
        t.fileHeader.internalMaxSize / 2 ≤ x.items.length ∧
        x.items.length ≤ t.fileHeader.internalMaxSize) ∧
      t₁.fileHeader = t.fileHeader ∧
      (∀ p, (t.body p).isSome → p ≠ y.page → t₁.body p = t.body p) ∧
      ∀ p, (t.body p).isSome → p ∉ (ia ++ (k, frame) :: (key, newFrame) :: ib).map Prod.snd →
        t₁.parentOf p = t.parentOf p := by
  obtain ⟨hok, -, hup⟩ := id h.levels
  have hyok := hok y (by simp)
  -- the sorted children show where the two halves stand
  obtain ⟨hs, hA, hB⟩ := h.sorted.insert_inv
  have hex := h.isSome_items hy
  have hndZ := h.nodup_items
  have hndL := (List.nodup_append.mp h.nodup).2.1
  have hdis := (List.nodup_append.mp h.nodup).2.2
  rw [pages_cons, List.nodup_append] at hndL
  obtain ⟨hndL, hndLs, hdisL⟩ := hndL
  have hyex : ∀ c ∈ y.items, (t.body c.2).isSome := fun c hc => hex c (by simp [hc])
  have hnot : ∀ p, (t.body p).isSome → p ≠ t.pool.freePage := fun p hp =>
    ne_freePage (Option.eq_some_of_isSome hp)
  have hsy : TailSorted cmp y.items := by
    rw [show LA.flatMap Seg.items ++ ia ++ (k, frame) :: (ib ++ LB.flatMap Seg.items)
      = LA.flatMap Seg.items ++ y.items ++ LB.flatMap Seg.items by simp [hy]] at hs
    exact hs.part
  -- no page is a child twice, so that each half gets the parents of its own children
  have hndy : (newFrame :: y.items.map Prod.snd).Nodup := by
    have hsub : (ia ++ (k, frame) :: (key, newFrame) :: ib).Sublist
        (LA.flatMap Seg.items ++ (ia ++ (k, frame) :: (key, newFrame) :: ib) ++
          LB.flatMap Seg.items) :=
      (List.sublist_append_right _ _).trans (List.sublist_append_left _ _)
    have hperm : (ia ++ (k, frame) :: (key, newFrame) :: ib).Perm ((key, newFrame) :: y.items) := by
      rw [hy, show ia ++ (k, frame) :: (key, newFrame) :: ib
        = (ia ++ [(k, frame)]) ++ (key, newFrame) :: ib by simp]
      exact List.perm_middle.trans (by simp)
    exact (hperm.map Prod.snd).nodup_iff.mp ((hsub.map Prod.snd).nodup hndZ)
  -- the split itself
  obtain ⟨t₁, l, r, sk, hcode, hlr, hl₁, hr₁, hls, hlm, hrs, hrm, hhead, hbody, hparent⟩ :=
    insertEntryIntoParent_full zeroKey fuel hyok hy (h.isSome (k, frame) (by simp)) (by omega) hfull
      hsy (fun hne => hA (by simp [hne])) (fun b hb =>
        hB b (by simp [List.head?_append, Option.mem_def.mp hb]))
      (h.isSome (key, newFrame) (by simp)) hndy hyex
  have hbody' : ∀ p, (t.body p).isSome → p ≠ y.page → t₁.body p = t.body p := fun p hp hpy =>
    hbody p hpy (hnot p hp)
  have hparent' : ∀ p, (t.body p).isSome →
      p ∉ (ia ++ (k, frame) :: (key, newFrame) :: ib).map Prod.snd →
      t₁.parentOf p = t.parentOf p := by
    intro p hp hps
    refine hparent p (hnot p hp) fun hpy => hps ?_
    rw [hy] at hpy
    simp only [List.map_append, List.map_cons, List.mem_append, List.mem_cons] at hpy ⊢
    grind
  -- the nodes beside are as they were
  have hok₁ : ∀ x ∈ LA ++ [⟨y.sep, y.page, l⟩, ⟨sk, t.pool.freePage, r⟩] ++ LB, NodeOK t₁ x := by
    refine nodes_replace (N := [y]) (by simpa using hok) hndZ ?_ (fun x hx => ?_) fun c hc =>
      hparent' _ (hex c ?_)
    · intro x hx
      simp only [List.mem_cons, List.not_mem_nil, or_false] at hx
      rcases hx with rfl | rfl
      · exact hl₁
      · exact hr₁
    · refine hbody' _ ?_ (ne_of_nodup_append_cons hndL hx)
      rw [(hok x (by rcases hx with hx | hx <;> simp [hx])).body]
      rfl
    · simp only [List.flatMap_append, List.flatMap_cons, List.mem_append] at hc ⊢
      grind
  have hflat : (LA ++ ([⟨y.sep, y.page, l⟩, ⟨sk, t.pool.freePage, r⟩] : Level K) ++ LB).flatMap
      Seg.items = LA.flatMap Seg.items ++ ia ++ (k, frame) :: (key, newFrame) ::
        (ib ++ LB.flatMap Seg.items) := by
    simp only [List.flatMap_append, List.flatMap_cons, List.flatMap_nil, List.append_nil, hlr]
    simp
  refine ⟨t₁, l, r, sk, hcode, hlr, ⟨?_, ?_, ?_, ?_, ?_⟩, fun x hx => ⟨hok₁ x hx, ?_⟩, hhead, hbody',
    hparent'⟩
  · -- the pages above are not involved in the split
    have hpages : ∀ p ∈ (LA ++ y :: LB).map Seg.page ++ pages Ls,
        (t.body p).isSome ∧ p ∉ (ia ++ (k, frame) :: (key, newFrame) :: ib).map Prod.snd := by
      intro p hp
      refine ⟨h.levels.isSome_body p hp, fun hps => hdis p ?_ p hp rfl⟩
      simp only [List.map_append, List.map_cons, List.mem_append, List.mem_cons] at hps ⊢
      grind
    have := hup.congr (by rw [hhead]) (fun p hp => hbody' p (hup.isSome_body p hp) ?_) fun p hp => by
      rw [map_snd_head] at hp
      exact hparent' p (hpages p hp).1 (hpages p hp).2
    · simpa [Seg.head] using this
    · rintro rfl
      exact hdisL _ (by simp) _ hp rfl
  · rw [hhead]
    exact h.sizes.2
  · have hs₁ := h.sorted
    rw [← hflat] at hs₁
    simpa [Seg.head] using sorted_heads hok₁ hs₁
  · exact nodup_insert_page (List.nodup_append.mp h.nodup).2.1 fun hf =>
      hnot _ (h.levels.isSome_body _ hf) rfl
  -- all heads of the level are pages that exist
  · intro z hz
    have hside : ∀ x, x ∈ LA ∨ x ∈ LB → (t₁.body x.page).isSome := by
      intro x hx
      rw [(hok₁ x (by rcases hx with hx | hx <;> simp [hx])).body]
      rfl
    simp only [List.mem_append, List.mem_cons, List.mem_map] at hz
    rcases hz with ⟨x, hx, rfl⟩ | rfl | rfl | ⟨x, hx, rfl⟩
    · exact hside x (Or.inl hx)
    · rw [hl₁.body]
      rfl
    · rw [hr₁.body]
      rfl
    · exact hside x (Or.inr hx)
  -- the halves are large enough by the split, the other nodes by what held before
  · have hhalf := h.sizes.1.half hup
    simp only [List.mem_append, List.mem_cons, List.not_mem_nil, or_false] at hx
    rcases hx with (hx | rfl | rfl) | hx
    · exact hhalf (by have := List.length_pos_of_mem hx; simp; omega) x (by simp [hx])
    · exact ⟨hls, hlm⟩
    · exact ⟨hrs, hrm⟩
    · exact hhalf (by have := List.length_pos_of_mem hx; simp; omega) x (by simp [hx])

end PendingSplit

/-- **Splits propagate.**  Recording a new node next to an old one on the levels above succeeds
    and leaves well-formed levels over the extended list.  Induction on the levels. -/
theorem insertEntryIntoParent_spec :
    ∀ {Ls : List (Level K)} {t : BplusTree K V} {A B : List (K × PageNum)} {k key : K}
      {frame newFrame : PageNum} {fuel : Nat}, 4 ≤ t.fileHeader.internalMaxSize →
      Ls.length < fuel → PendingSplit cmp zeroKey t A k frame key newFrame B Ls →
      ∃ t' Ls', insertEntryIntoParent cmp zeroKey fuel t frame newFrame key = .ok t' ∧
        Levels zeroKey t' (A ++ (k, frame) :: (key, newFrame) :: B) Ls' ∧
        Sizes t'.fileHeader.internalMaxSize Ls' ∧
        LevelsFrame t t' ((A ++ (k, frame) :: (key, newFrame) :: B).map Prod.snd) Ls Ls'
  | [], t, A, B, k, key, frame, newFrame, fuel, hmax, hfuel, h => by
    obtain ⟨fuel, rfl⟩ : ∃ n, fuel = n + 1 := ⟨fuel - 1, by simp at hfuel; omega⟩
    obtain ⟨hZ, hroot⟩ := id h.levels
    obtain ⟨rfl, hz, rfl⟩ := append_cons_eq_singleton hZ
    obtain ⟨rfl, rfl⟩ := Prod.mk.inj hz
    obtain ⟨t', hcode, hlev', hframe⟩ := insertEntryIntoParent_root cmp key fuel
      (h.isSome _ List.mem_cons_self) (h.isSome (key, newFrame) (by simp)) hroot
    refine ⟨t', _, hcode, hlev', ⟨fun x hx => ?_, trivial⟩, hframe⟩
    rw [List.mem_singleton.mp hx, hframe.internalMaxSize]
    simp
    omega
  | L :: Ls, t, A, B, k, key, frame, newFrame, fuel, hmax, hfuel, h => by
    obtain ⟨fuel, rfl⟩ : ∃ n, fuel = n + 1 := ⟨fuel - 1, by simp at hfuel; omega⟩
    obtain ⟨LA, y, LB, ia, ib, rfl, hy, rfl, rfl, -, -⟩ := h.levels.parent_of
    rcases Nat.lt_or_ge y.items.length t.fileHeader.internalMaxSize with hroom | hfull
    · exact h.spec_notFull hy hroom fuel
    have hlen := Nat.le_antisymm (h.sizes.1 y (by simp)).2 hfull
    obtain ⟨t₁, l, r, sk, hcode, hlr, hpend, hL, hhead, hbody, hparent⟩ :=
      h.spec_full hy hlen hmax fuel
    obtain ⟨t', Ls', hcode', hlev', hsz', hfr⟩ :=
      insertEntryIntoParent_spec (by rwa [hhead]) (by simpa using hfuel) hpend
    -- the level with the parent split in two, of which the level above has been told
    let L' : Level K := LA ++ [⟨y.sep, y.page, l⟩, ⟨sk, t.pool.freePage, r⟩] ++ LB
    have hheads : L'.map Seg.head = LA.map Seg.head ++ (y.sep, y.page) :: (sk, t.pool.freePage) ::
        LB.map Seg.head := by simp [L', Seg.head]
    have hflat : L'.flatMap Seg.items = LA.flatMap Seg.items ++ ia ++ (k, frame) ::
        (key, newFrame) :: (ib ++ LB.flatMap Seg.items) := by
      simp only [L', List.flatMap_append, List.flatMap_cons, List.flatMap_nil, List.append_nil, hlr]
      simp
    have hpages : ∀ p, p ∈ L'.map Seg.page ↔
        p ∈ (LA ++ y :: LB).map Seg.page ∨ p = t.pool.freePage := by
      intro p
      simp only [L', List.map_append, List.map_cons, List.map_nil, List.mem_append, List.mem_cons,
        List.not_mem_nil, or_false]
      grind
    have hndL : (L'.map Seg.page).Nodup ∧ ∀ p ∈ L'.map Seg.page, p ∉ pages Ls := by
      have hnd := hpend.nodup
      rw [← hheads, map_snd_head, List.nodup_append] at hnd
      exact ⟨hnd.1, fun p hp hq => hnd.2.2 p hp p hq rfl⟩
    rw [← hheads] at hlev' hfr
    rw [map_snd_head] at hfr
    have hsome : ∀ z ∈ L'.flatMap Seg.items, (t.body z.2).isSome := by
      rw [hflat]
      exact h.isSome
    have hdis : ∀ z ∈ L'.flatMap Seg.items, z.2 ∉ pages ((LA ++ y :: LB) :: Ls) := by
      rw [hflat]
      exact fun z hz hp => (List.nodup_append.mp h.nodup).2.2 z.2 (List.mem_map_of_mem hz) _ hp rfl
    refine ⟨t', L' :: Ls', hcode.trans hcode', ?_, ⟨?_, hsz'⟩, ?_⟩
    · rw [← hflat]
      refine Levels.lift (fun x hx => (hL x hx).1) hlev' hfr (fun x hx => hndL.2 _
        (List.mem_map_of_mem hx)) fun z hz => ⟨?_, fun hp => ?_, fun hp => ?_⟩
      · by_cases hzy : z.2 = y.page
        · rw [hzy, (hL ⟨y.sep, y.page, l⟩ (by simp)).1.body]
          rfl
        · rw [hbody _ (hsome z hz) hzy]
          exact hsome z hz
      · rcases (hpages _).mp hp with hp | hp
        · exact hdis z hz (by rw [pages_cons]; exact List.mem_append_left _ hp)
        · exact ne_freePage (Option.eq_some_of_isSome (hsome z hz)) hp
      · exact hdis z hz (by rw [pages_cons]; exact List.mem_append_right _ hp)
    · rw [hfr.internalMaxSize, hhead]
      exact SizesOK.of_half hmax _ fun x hx => (hL x hx).2
    · refine LevelsFrame.cons (fun x hx => (hL x hx).1) (by rw [hhead]) (by rw [hhead])
        (fun p hp hpL => hbody p hp ?_) (fun p hp hps _ => hparent p hp ?_) (fun p hp => ?_)
        hndL.1 hndL.2 hfr
      · rintro rfl
        exact hpL (by simp)
      · intro h
        refine hps ?_
        simp only [List.map_append, List.map_cons, List.mem_append, List.mem_cons] at h ⊢
        grind
      · rcases (hpages p).mp hp with hp | rfl
        · exact Or.inl hp
        · exact Or.inr (body_freePage t)

end Levels
end Miniob.Index
