/-
  `BplusTreeHandler::insert_entry`: what it returns and the tree it leaves.

  A key is looked up in the leaf where it belongs.  If the leaf has room the entry goes in between
  its neighbours; otherwise the leaf is split, the entry goes into the half it belongs in, and
  `insert_entry_into_parent` records the new leaf on the levels above.  In either case the entries
  read along the leaves are the old ones with the new one at its place.
-/
import Miniob.Index.InsertParent
import Miniob.Index.Leaves

namespace Miniob.Index

open Miniob.Common Miniob.Storage BplusTree

variable {K V : Type}

/-! ## The full leaf -/

section FullLeaf

variable {cmp : K → K → Ordering} (zeroKey : K)

/-- What `split` does to a leaf whose items are `l ++ r`, cut in the middle. -/
theorem splitLeaf_spec {t : BplusTree K V} {p par next : PageNum} {l r : List (K × V)}
    (hb : t.body p = some (.leaf next (l ++ r))) (hp : t.parentOf p = some par)
    (hl : l.length = (l ++ r).length / 2) :
    ∃ t', t.splitLeaf p = .ok (t.pool.freePage, t') ∧ t'.fileHeader = t.fileHeader ∧
      (∀ x, t'.body x = if x = p then some (.leaf next l)
        else if x = t.pool.freePage then some (.leaf bpInvalidPageNum r) else t.body x) ∧
      ∀ x, t'.parentOf x = if x = t.pool.freePage then some par else t.parentOf x := by
  have hpf : p ≠ t.pool.freePage := ne_freePage hb
  let t₁ := (t.allocateNode (.leaf bpInvalidPageNum [])).2.setParent t.pool.freePage par
  refine ⟨(t₁.setBody t.pool.freePage (.leaf bpInvalidPageNum r)).setBody p (.leaf next l), ?_, rfl,
    fun x => ?_, fun x => ?_⟩
  · rw [splitLeaf, getPage_eq hb hp, getLeaf_eq hb]
    simp only [bind, Except.bind, allocateNode_fst, ← hl, List.drop_left, List.take_left]
    rfl
  · simp only [t₁, body_setBody, body_setParent, body_allocateNode]
    by_cases hx : x = p
    · simp [hx, hpf, hb]
    · by_cases hxf : x = t.pool.freePage <;> simp [hx, hxf, hpf.symm]
  · simp only [t₁, parentOf_setBody, parentOf_setParent, parentOf_allocateNode]
    by_cases hx : x = t.pool.freePage <;> simp [hx]

/-- A full leaf is split, the entry goes into one of the halves, and the new leaf is handed to the
    level above. -/
theorem insertEntryIntoLeafNode_full {t : BplusTree K V} {p par next : PageNum}
    {pre post : List (K × V)} {key : K} (value : V)
    (hb : t.body p = some (.leaf next (pre ++ post))) (hp : t.parentOf p = some par)
    (hlook : leafLookup cmp (pre ++ post) key = (pre.length, false))
    (hfull : (pre ++ post).length = t.fileHeader.leafMaxSize) (hmax : 2 ≤ t.fileHeader.leafMaxSize) :
    ∃ t₂ l e r, t.insertEntryIntoLeafNode cmp zeroKey p key value = (do
        let t' ← insertEntryIntoParent cmp zeroKey t₂.pool.pageCount t₂ p t.pool.freePage e.1
        return (.success, t')) ∧
      l ++ e :: r = pre ++ (key, value) :: post ∧
      (∀ n ∈ [l.length, r.length + 1], t.fileHeader.leafMaxSize / 2 ≤ n ∧
        n ≤ t.fileHeader.leafMaxSize) ∧
      t₂.fileHeader = t.fileHeader ∧
      (∀ x, t₂.body x = if x = p then some (.leaf t.pool.freePage l)
        else if x = t.pool.freePage then some (.leaf next (e :: r)) else t.body x) ∧
      ∀ x, t₂.parentOf x = if x = t.pool.freePage then some par else t.parentOf x := by
  have hpf : p ≠ t.pool.freePage := ne_freePage hb
  obtain ⟨l, r, hlr, hl⟩ : ∃ l r, pre ++ post = l ++ r ∧ l.length = (pre ++ post).length / 2 :=
    ⟨(pre ++ post).take ((pre ++ post).length / 2), (pre ++ post).drop ((pre ++ post).length / 2),
      (List.take_append_drop _ _).symm, by simp; omega⟩
  have hlen : l.length + r.length = t.fileHeader.leafMaxSize := by
    rw [← hfull, hlr, List.length_append]
  rw [hfull] at hl
  obtain ⟨t₁, hsplit, hhead, hbody, hparent⟩ :=
    splitLeaf_spec (hlr ▸ hb) hp (by rw [← hlr, hfull, hl])
  have hbp : t₁.body p = some (.leaf next l) := by rw [hbody, if_pos rfl]
  have hbf : t₁.body t.pool.freePage = some (.leaf bpInvalidPageNum r) := by
    rw [hbody, if_neg hpf.symm, if_pos rfl]
  -- the tree after both halves are written, and what is left to do
  let put (l r : List (K × V)) : BplusTree K V :=
    (t₁.setBody t.pool.freePage (.leaf next r)).setBody p (.leaf t.pool.freePage l)
  have hputb : ∀ l r x, (put l r).body x = if x = p then some (.leaf t.pool.freePage l)
      else if x = t.pool.freePage then some (.leaf next r) else t.body x := by
    intro l r x
    simp only [put, body_setBody, hbody]
    by_cases hx : x = p
    · simp [hx, hpf]
    · by_cases hxf : x = t.pool.freePage <;> simp [hx, hxf, hpf.symm]
  have hputp : ∀ l r x, (put l r).parentOf x
      = if x = t.pool.freePage then some par else t.parentOf x := by
    intro l r x
    simp only [put, parentOf_setBody, hparent]
  have hcode : t.insertEntryIntoLeafNode cmp zeroKey p key value = (do
      let t₂ ←
        if pre.length < l.length then do
          let leafArray ← recoverInsertItems l pre.length [(key, value)]
          pure (put leafArray r)
        else do
          let newArray ← recoverInsertItems r (pre.length - l.length) [(key, value)]
          pure (put l newArray)
      let leaf ← t₂.getLeaf t.pool.freePage
      let firstKey ← keyAt leaf.2 0
      let t' ← insertEntryIntoParent cmp zeroKey t₂.pool.pageCount t₂ p t.pool.freePage firstKey
      return (.success, t')) := by
    rw [insertEntryIntoLeafNode, getLeaf_eq hb]
    simp only [bind, Except.bind, hlook, Bool.false_eq_true, if_false, hfull, Nat.lt_irrefl, hsplit,
      getLeaf_eq hbp, getLeaf_eq hbf]
    rfl
  have hgetf : ∀ l r, (put l r).getLeaf t.pool.freePage = .ok (next, r) := fun l r =>
    getLeaf_eq (by rw [hputb, if_neg hpf.symm, if_pos rfl])
  by_cases hlt : pre.length < l.length
  · -- the entry goes into the left half
    obtain ⟨C, rfl, rfl⟩ : ∃ C, l = pre ++ C ∧ post = C ++ r := by
      rcases List.append_eq_append_iff.mp hlr with ⟨C, h1, h2⟩ | ⟨C, h1, h2⟩
      · exact ⟨C, h1, h2⟩
      · rw [h1, List.length_append] at hlt
        omega
    obtain ⟨e, r, rfl⟩ : ∃ e r', r = e :: r' := by
      refine List.exists_cons_of_ne_nil ?_
      rintro rfl
      simp only [List.length_nil] at hlen
      omega
    refine ⟨put (pre ++ (key, value) :: C) (e :: r), pre ++ (key, value) :: C, e, r, ?_, by simp, ?_,
      hhead, hputb _ _, hputp _ _⟩
    · rw [hcode, if_pos hlt, recoverInsertItems_append]
      simp only [bind, Except.bind, pure, Except.pure, hgetf, keyAt_zero, List.append_assoc,
        List.singleton_append]
    · simp at hl hlen ⊢
      omega
  · -- the entry goes into the right half
    obtain ⟨C, rfl, rfl⟩ : ∃ C, pre = l ++ C ∧ r = C ++ post := by
      rcases List.append_eq_append_iff.mp hlr with ⟨C, h1, h2⟩ | ⟨C, h1, h2⟩
      · have : C = [] := by
          rw [h1, List.length_append] at hlt
          exact List.eq_nil_of_length_eq_zero (by omega)
        subst this
        exact ⟨[], by simp [h1], by simp [h2]⟩
      · exact ⟨C, h1, h2⟩
    obtain ⟨e, r, hr⟩ : ∃ e r', C ++ (key, value) :: post = e :: r' :=
      List.exists_cons_of_ne_nil (by simp)
    have hrlen := congrArg List.length hr
    refine ⟨put l (e :: r), l, e, r, ?_, by rw [← hr]; simp, ?_, hhead, hputb _ _, hputp _ _⟩
    · rw [hcode, if_neg hlt, show (l ++ C).length - l.length = C.length by simp,
        recoverInsertItems_append]
      simp only [bind, Except.bind, pure, Except.pure, hgetf, List.append_assoc,
        List.singleton_append, hr, keyAt_zero]
    · simp at hl hlen hrlen ⊢
      omega

end FullLeaf

/-! ## `insert_entry` -/

section InsertEntry

variable {cmp : K → K → Ordering} [Std.TransCmp cmp] {zeroKey : K} {Q : K → Prop}
  {t : BplusTree K V} {key : K} (value : V)

/-- A leaf that takes an entry whose key belongs in it. -/
theorem fenced_insert {A B : List (Seg K V)} {s : Seg K V} {pre post : List (K × V)}
    (h : Fenced cmp Seg.sep Seg.keys (A ++ s :: B)) (hi : s.items = pre ++ post)
    (hin : InBlock cmp Seg.sep A s B key) (hpre : ∀ e ∈ pre, cmp e.1 key = .lt)
    (hpost : ∀ e ∈ post, cmp key e.1 = .lt) :
    Fenced cmp Seg.sep Seg.keys (A ++ ⟨s.sep, s.page, pre ++ (key, value) :: post⟩ :: B) := by
  have hkeys : s.keys = pre.map Prod.fst ++ post.map Prod.fst := by
    rw [Seg.keys, hi, List.map_append]
  refine h.replace rfl ?_ (by simp [Seg.keys]) fun x hx => ?_
  · have hs := h.sorted s (by simp)
    rw [hkeys, List.pairwise_append] at hs
    simp only [Seg.keys, List.map_append, List.map_cons, List.pairwise_append, List.pairwise_cons,
      List.mem_map, List.mem_cons]
    refine ⟨hs.1, ⟨?_, hs.2.1⟩, ?_⟩
    · rintro _ ⟨e, he, rfl⟩
      exact hpost e he
    · rintro _ ⟨e, he, rfl⟩ b (rfl | hb)
      · exact hpre e he
      · exact hs.2.2 _ (List.mem_map_of_mem he) b (List.mem_map.mpr hb)
  · simp only [Seg.keys, List.map_append, List.map_cons, List.mem_append, List.mem_cons] at hx
    rcases hx with hx | rfl | hx
    · exact h.inBlock (by rw [hkeys]; exact List.mem_append_left _ hx)
    · exact hin
    · exact h.inBlock (by rw [hkeys]; exact List.mem_append_right _ hx)

/-- The leaf has room. -/
theorem TreeInv.insert_room {A B : List (Seg K V)} {s : Seg K V} {Ls : List (Level K)}
    {pre post : List (K × V)} (h : TreeInv cmp zeroKey Q t (A ++ s :: B) Ls) (hQ : Q key)
    (hi : s.items = pre ++ post) (hin : InBlock cmp Seg.sep A s B key)
    (hpre : ∀ e ∈ pre, cmp e.1 key = .lt) (hpost : ∀ e ∈ post, cmp key e.1 = .lt)
    (hroom : s.items.length < t.fileHeader.leafMaxSize) :
    TreeInv cmp zeroKey Q
      (t.setBody s.page (.leaf (nextPage bpInvalidPageNum B) (pre ++ (key, value) :: post)))
      (A ++ ⟨s.sep, s.page, pre ++ (key, value) :: post⟩ :: B) Ls := by
  have hkeys : s.keys = pre.map Prod.fst ++ post.map Prod.fst := by
    rw [Seg.keys, hi, List.map_append]
  have hQs := h.keysQ s (by simp)
  -- the keys of the leaf stay between the fences, and its size stays in range
  refine ⟨h.setLeaf (by rfl) (by rfl) (fenced_insert value h.fenced hi hin hpre hpost) ?_
    fun k hk => ?_, fun hne x hx => ?_⟩
  · simp only [hi, List.length_append, List.length_cons] at hroom ⊢
    omega
  · simp only [Seg.keys, List.map_append, List.map_cons, List.mem_append, List.mem_cons] at hk
    rcases hk with hk | rfl | hk
    · exact hQs k (by rw [hkeys]; exact List.mem_append_left _ hk)
    · exact hQ
    · exact hQs k (by rw [hkeys]; exact List.mem_append_right _ hk)
  -- no other leaf has changed
  · rcases List.mem_append.mp hx with hx | hx
    · exact h.leafMin hne x (by simp [hx])
    rcases List.mem_cons.mp hx with rfl | hx
    · have := h.leafMin hne s (by simp)
      simp only [hi, List.length_append, List.length_cons, fileHeader_setBody] at this ⊢
      omega
    · exact h.leafMin hne x (by simp [hx])

/-- The leaf is full. -/
theorem TreeInv.insert_full {A B : List (Seg K V)} {s : Seg K V} {Ls : List (Level K)}
    {pre post : List (K × V)} (h : TreeInv cmp zeroKey Q t (A ++ s :: B) Ls) (hQ : Q key)
    (hi : s.items = pre ++ post) (hin : InBlock cmp Seg.sep A s B key)
    (hpre : ∀ e ∈ pre, cmp e.1 key = .lt) (hpost : ∀ e ∈ post, cmp key e.1 = .lt)
    (hlook : leafLookup cmp (pre ++ post) key = (pre.length, false))
    (hfull : s.items.length = t.fileHeader.leafMaxSize)
    (hleaf : 4 ≤ t.fileHeader.leafMaxSize) (hint : 4 ≤ t.fileHeader.internalMaxSize) :
    ∃ t' segs Ls', t.insertEntryIntoLeafNode cmp zeroKey s.page key value = .ok (.success, t') ∧
      TreeInv cmp zeroKey Q t' segs Ls' ∧
      segs.flatMap Seg.items = A.flatMap Seg.items ++ (pre ++ (key, value) :: post) ++
        B.flatMap Seg.items ∧
      t'.fileHeader.leafMaxSize = t.fileHeader.leafMaxSize ∧
      t'.fileHeader.internalMaxSize = t.fileHeader.internalMaxSize := by
  have hbs := h.leaves.body
  rw [hi] at hbs
  obtain ⟨par, hpar⟩ := exists_parentOf hbs
  obtain ⟨t₂, l, e, r, hcode, hlr, hlen, hhead, hbody, hparent⟩ :=
    insertEntryIntoLeafNode_full zeroKey value hbs hpar hlook (hi ▸ hfull) (by omega)
  have hnd := h.nodup
  rw [List.nodup_append] at hnd
  obtain ⟨hndS, hndL, hdis⟩ := hnd
  have hnot : ∀ p, (t.body p).isSome → p ≠ t.pool.freePage := fun p hp =>
    ne_freePage (Option.eq_some_of_isSome hp)
  have hsf : s.page ≠ t.pool.freePage := ne_freePage hbs
  have hsegs : ∀ x ∈ A ++ s :: B, (t.body x.page).isSome := fun x hx =>
    h.leaves.isSome_body x hx
  have hbody' : ∀ p, (t.body p).isSome → p ≠ s.page → t₂.body p = t.body p := fun p hp hps => by
    rw [hbody, if_neg hps, if_neg (hnot p hp)]
  have hother : ∀ x, x ∈ A ∨ x ∈ B → t₂.body x.page = t.body x.page := fun x hx =>
    hbody' _ (hsegs x (by rcases hx with hx | hx <;> simp [hx])) (ne_of_nodup_append_cons hndS hx)
  have hlne : l ≠ [] := by
    have := (hlen l.length (by simp)).1
    rintro rfl
    simp only [List.length_nil] at this
    omega
  have hF : Fenced cmp Seg.sep Seg.keys (A ++ ⟨s.sep, s.page, l⟩ ::
      ⟨e.1, t.pool.freePage, e :: r⟩ :: B) := by
    refine (fenced_insert value h.fenced hi hin hpre hpost).split rfl ?_ ?_ rfl
    · simp only [Seg.keys, ← List.map_append, hlr]
    · simpa [Seg.keys] using hlne
  -- the leaves are split, the parent does not know of the new one yet
  have hpend : PendingSplit cmp zeroKey t₂ (A.map Seg.head) s.sep s.page e.1 t.pool.freePage
      (B.map Seg.head) Ls := by
    refine ⟨?_, by rw [hhead]; exact h.sizes, ?_, ?_, ?_⟩
    · have hlev : Levels zeroKey t₂ ((A ++ s :: B).map Seg.head) Ls := by
        refine h.levels.congr (by rw [hhead]) (fun p hp => hbody' p (h.levels.isSome_body p hp) ?_)
          fun p hp => ?_
        · rintro rfl
          exact hdis s.page (by simp) _ hp rfl
        · rw [map_snd_head] at hp
          rw [hparent, if_neg (hnot p (h.isSome_body p hp))]
      simpa [Seg.head] using hlev
    · have hs := hF.sep_tailSorted Seg.page
      rw [List.map_append] at hs
      exact hs
    · exact nodup_insert_page h.nodup fun hf => hnot _ (h.isSome_body _ hf) rfl
    · intro z hz
      simp only [List.mem_append, List.mem_cons, List.mem_map] at hz
      rcases hz with ⟨x, hx, rfl⟩ | rfl | rfl | ⟨x, hx, rfl⟩
      · rw [Seg.head_snd, hother x (Or.inl hx)]
        exact hsegs x (by simp [hx])
      · rw [hbody, if_pos rfl]
        rfl
      · rw [hbody, if_neg hsf.symm, if_pos rfl]
        rfl
      · rw [Seg.head_snd, hother x (Or.inr hx)]
        exact hsegs x (by simp [hx])
  obtain ⟨t', Ls', hcode', hlev', hsz', hfr⟩ :=
    insertEntryIntoParent_spec (by rwa [hhead]) hpend.fuel hpend
  have hhead' : A.map Seg.head ++ (s.sep, s.page) :: (e.1, t.pool.freePage) :: B.map Seg.head
      = (A ++ ⟨s.sep, s.page, l⟩ :: ⟨e.1, t.pool.freePage, e :: r⟩ :: B).map Seg.head := by
    simp [Seg.head]
  rw [hhead'] at hlev' hfr
  rw [map_snd_head] at hfr
  -- the way up does not touch the leaves
  have hpages : ∀ x ∈ A ++ ⟨s.sep, s.page, l⟩ :: ⟨e.1, t.pool.freePage, e :: r⟩ :: B,
      (t₂.body x.page).isSome ∧ x.page ∉ pages Ls := by
    intro x hx
    have hxh : x.head ∈ A.map Seg.head ++ (s.sep, s.page) :: (e.1, t.pool.freePage) ::
        B.map Seg.head := hhead' ▸ List.mem_map_of_mem hx
    exact ⟨hpend.isSome _ hxh, fun hp =>
      (List.nodup_append.mp hpend.nodup).2.2 _ (List.mem_map_of_mem hxh) _ hp rfl⟩
  have hchain : LeafChain t₂ bpInvalidPageNum (A ++ ([⟨s.sep, s.page, l⟩,
      ⟨e.1, t.pool.freePage, e :: r⟩] ++ B)) := by
    refine LeafChain.replace (N := [s]) h.leaves ⟨?_, ?_, trivial⟩ rfl hother
    · rw [hbody, if_pos rfl]
      rfl
    · rw [hbody, if_neg hsf.symm, if_pos rfl]
      rfl
  have hQkeys : ∀ k ∈ (pre ++ (key, value) :: post).map Prod.fst, Q k := by
    intro k hk
    have hQs := h.keysQ s (by simp) k
    rw [Seg.keys, hi] at hQs
    simp only [List.map_append, List.map_cons, List.mem_append, List.mem_cons] at hk hQs
    rcases hk with hk | rfl | hk
    · exact hQs (Or.inl hk)
    · exact hQ
    · exact hQs (Or.inr hk)
  have hmem : ∀ {P : Seg K V → Prop}, (∀ x, x ∈ A ∨ x ∈ B → P x) → P ⟨s.sep, s.page, l⟩ →
      P ⟨e.1, t.pool.freePage, e :: r⟩ →
      ∀ x ∈ A ++ ⟨s.sep, s.page, l⟩ :: ⟨e.1, t.pool.freePage, e :: r⟩ :: B, P x := by
    intro P hAB hl hr x hx
    simp only [List.mem_append, List.mem_cons] at hx
    rcases hx with hx | rfl | rfl | hx
    · exact hAB x (Or.inl hx)
    · exact hl
    · exact hr
    · exact hAB x (Or.inr hx)
  have hold : ∀ x, x ∈ A ∨ x ∈ B → x ∈ A ++ s :: B := fun x hx => by
    rcases hx with hx | hx <;> simp [hx]
  refine ⟨t', A ++ ⟨s.sep, s.page, l⟩ :: ⟨e.1, t.pool.freePage, e :: r⟩ :: B, Ls', ?_,
    ⟨⟨hlev', hsz', hchain.congr fun x hx => ?_, hF, ?_, ?_, ?_, ?_⟩, ?_⟩, ?_, ?_, ?_⟩
  · rw [hcode, hcode']
    rfl
  · exact hfr.body _ (hpages x hx).1 (hpages x hx).2
  · have hndS' := hpend.nodup
    rw [hhead', map_snd_head, List.nodup_append] at hndS'
    refine List.nodup_append.mpr ⟨hndS'.1, hfr.nodup, fun p hp q hq hpq => ?_⟩
    obtain ⟨x, hx, rfl⟩ := List.mem_map.mp hp
    rcases hfr.fresh q hq with h' | h'
    · exact (hpages x hx).2 (hpq ▸ h')
    · have := (hpages x hx).1
      rw [hpq, h'] at this
      cases this
  · rw [hfr.leafMaxSize, hhead]
    exact hmem (fun x hx => h.leafMax x (hold x hx)) (hlen _ (by simp)).2 (hlen (r.length + 1) (by simp)).2
  · refine hmem (fun x hx => h.keysQ x (hold x hx)) (fun k hk => ?_) fun k hk => ?_
    · exact hQkeys k (by rw [← hlr, List.map_append]; exact List.mem_append_left _ hk)
    · exact hQkeys k (by rw [← hlr, List.map_append]; exact List.mem_append_right _ hk)
  · have hQe : Q e.1 := hQkeys e.1 (by rw [← hlr]; simp)
    have hseps := h.sepsQ
    cases A with
    | nil =>
      intro x hx
      rcases List.mem_cons.mp hx with rfl | hx
      · exact hQe
      · exact hseps x hx
    | cons a A =>
      intro x hx
      simp only [List.cons_append, List.tail_cons, List.mem_append, List.mem_cons] at hx hseps
      rcases hx with hx | rfl | rfl | hx
      · exact hseps x (Or.inl hx)
      · exact hseps s (Or.inr (Or.inl rfl))
      · exact hQe
      · exact hseps x (Or.inr (Or.inr hx))
  · rw [hfr.leafMaxSize, hhead]
    refine fun _ => hmem (fun x hx => ?_) (hlen _ (by simp)).1 (hlen (r.length + 1) (by simp)).1
    refine h.leafMin_of_length ?_ x (hold x hx)
    have : 0 < A.length + B.length := by
      rcases hx with hx | hx <;> have := List.length_pos_of_mem hx <;> omega
    simp
    omega
  · simp [← hlr]
  · rw [hfr.leafMaxSize, hhead]
  · rw [hfr.internalMaxSize, hhead]

omit [Std.TransCmp cmp] in
/-- The first entry of a tree. -/
theorem TreeInv.createNewTree (hQ : Q key) (hleaf : 4 ≤ t.fileHeader.leafMaxSize) :
    TreeInv cmp zeroKey Q (t.createNewTree key value)
      [⟨zeroKey, t.pool.freePage, [(key, value)]⟩] [] := by
  have hbody : (t.createNewTree key value).body t.pool.freePage
      = some (.leaf bpInvalidPageNum [(key, value)]) := by
    rw [BplusTree.createNewTree, body_updateRootPageNum, body_allocateNode, if_pos rfl]
  have hparent : (t.createNewTree key value).parentOf t.pool.freePage = some bpInvalidPageNum := by
    rw [BplusTree.createNewTree, parentOf_updateRootPageNum, parentOf_allocateNode, if_pos rfl]
  refine ⟨⟨⟨rfl, hparent⟩, trivial, ⟨hbody, trivial⟩, ⟨?_, ?_, ?_⟩, ?_, ?_, ?_, nofun⟩,
    fun hne => absurd rfl hne⟩
  · simp [Seg.keys]
  · simp [Seg.keys]
  · exact List.pairwise_singleton _ _
  · simp
  · intro s hs
    rw [List.mem_singleton.mp hs]
    simp only [List.length_cons, List.length_nil]
    exact Nat.le_trans (by decide) hleaf
  · intro s hs k hk
    rw [List.mem_singleton.mp hs] at hk
    rw [List.mem_singleton.mp hk]
    exact hQ

/-- **`insert_entry`.**  On a well-formed tree it either finds the key and changes nothing, or puts
    the entry at its place. -/
theorem insertEntry_spec {es : List (K × V)} (h : IsTree cmp zeroKey Q t es) (hQ : Q key)
    (hleaf : 4 ≤ t.fileHeader.leafMaxSize) (hint : 4 ≤ t.fileHeader.internalMaxSize) :
    (∃ pre e post, es = pre ++ e :: post ∧ cmp e.1 key = .eq ∧
      t.insertEntry cmp zeroKey key value = .ok (.recordDuplicateKey, t)) ∨
    ∃ pre post t', es = pre ++ post ∧ (∀ e ∈ pre, cmp e.1 key = .lt) ∧
      (∀ e ∈ post, cmp key e.1 = .lt) ∧
      t.insertEntry cmp zeroKey key value = .ok (.success, t') ∧
      IsTree cmp zeroKey Q t' (pre ++ (key, value) :: post) ∧
      t'.fileHeader.leafMaxSize = t.fileHeader.leafMaxSize ∧
      t'.fileHeader.internalMaxSize = t.fileHeader.internalMaxSize := by
  rcases h with ⟨hempty, rfl⟩ | ⟨segs, Ls, h, rfl⟩
  -- the first entry of an empty tree
  · refine Or.inr ⟨[], [], t.createNewTree key value, rfl, nofun, nofun, ?_,
      Or.inr ⟨_, _, TreeInv.createNewTree value hQ hleaf, rfl⟩, rfl, rfl⟩
    rw [insertEntry, hempty]
    rfl
  obtain ⟨A, s, B, rfl, hin, hfind⟩ := h.exists_findLeaf key
  have hcode : t.insertEntry cmp zeroKey key value
      = t.insertEntryIntoLeafNode cmp zeroKey s.page key value := by
    rw [insertEntry, h.isEmpty_eq, hfind]
    rfl
  -- the leaves at the left hold smaller keys, those at the right greater ones
  have hleft : ∀ e ∈ A.flatMap Seg.items, cmp e.1 key = .lt := by
    intro e he
    obtain ⟨a, ha, he⟩ := List.mem_flatMap.mp he
    exact hin.left_lt h.fenced a ha e.1 (List.mem_map_of_mem he)
  have hright : ∀ e ∈ B.flatMap Seg.items, cmp key e.1 = .lt := by
    intro e he
    obtain ⟨b, hb, he⟩ := List.mem_flatMap.mp he
    exact (hin.lt_right h.fenced b hb).2 e.1 (List.mem_map_of_mem he)
  have hs : s.items.Pairwise fun a b => cmp a.1 b.1 = .lt :=
    List.pairwise_map.mp (h.fenced.sorted s (by simp))
  rcases leafLookup_cases hs key with ⟨pre, e, post, hi, he, hlook⟩ | ⟨pre, post, hi, hpre, hpost, hlook⟩
  · -- the key is there
    refine Or.inl ⟨A.flatMap Seg.items ++ pre, e, post ++ B.flatMap Seg.items, by simp [hi], he, ?_⟩
    rw [hcode, insertEntryIntoLeafNode, getLeaf_eq h.leaves.body]
    simp only [bind, Except.bind, hlook]
    rfl
  refine Or.inr ⟨A.flatMap Seg.items ++ pre, post ++ B.flatMap Seg.items, ?_⟩
  have hpre' : ∀ e ∈ A.flatMap Seg.items ++ pre, cmp e.1 key = .lt := fun e he =>
    (List.mem_append.mp he).elim (hleft e) (hpre e)
  have hpost' : ∀ e ∈ post ++ B.flatMap Seg.items, cmp key e.1 = .lt := fun e he =>
    (List.mem_append.mp he).elim (hpost e) (hright e)
  rcases Nat.lt_or_ge s.items.length t.fileHeader.leafMaxSize with hroom | hfull
  · refine ⟨_, by simp [hi], hpre', hpost', ?_, Or.inr ⟨_, _, h.insert_room value hQ hi hin
      hpre hpost hroom, by simp⟩, rfl, rfl⟩
    rw [hcode, insertEntryIntoLeafNode, getLeaf_eq h.leaves.body]
    simp only [bind, Except.bind, hlook, Bool.false_eq_true, if_false, hroom, if_true]
    rw [hi, recoverInsertItems_append]
    simp
    rfl
  · rw [hi] at hlook
    obtain ⟨t', segs, Ls', hcode', hinv, hflat, hl, hm⟩ := h.insert_full value hQ hi hin
      hpre hpost hlook (Nat.le_antisymm (h.leafMax s (by simp)) hfull) hleaf hint
    exact ⟨t', by simp [hi], hpre', hpost', hcode.trans hcode', Or.inr ⟨segs, Ls', hinv, by simp [hflat]⟩,
      hl, hm⟩

end InsertEntry
end Miniob.Index
