/-
  What the operations of a buffer pool do to the contents of its pages.

  `Becomes` says which contents change.  `get_this_page`, flushes and purges change nothing; where a
  frame is to be dropped that is not written down, as in `dispose_page`, this is said of the other
  pages only.
-/
import Miniob.Buffer.PageContent

namespace Miniob.Buffer

open Miniob.Common Miniob.Storage

variable {D : Type}

namespace DiskBufferPool

variable (cfg : PoolConfig D)

/-- The pages in `u` have the contents they have there, and the others the contents they had. -/
def Becomes (u : Nat → Option (Int × PageData D)) (s s' : DiskBufferPool D) : Prop :=
  ∀ p c, (u p).or (s.content cfg p) = some c → s'.content cfg p = some c

/-- One page. -/
def written (p : Nat) (c : Int × PageData D) : Nat → Option (Int × PageData D) := fun q =>
  if q = p then some c else none

variable {cfg} {s s' s'' : DiskBufferPool D} {f : Frame D} {p : Nat} {t : Traversal (PageData D)}
  {lsn : Int}

/-- A page is written, and the others are as they were. -/
theorem becomes_written {c : Int × PageData D} (hpage : s'.content cfg p = some c)
    (hothers : ∀ q ≠ p, ∀ x, s.content cfg q = some x → s'.content cfg q = some x) :
    Becomes cfg (written p c) s s' := by
  intro q x hx
  unfold written at hx
  by_cases hq : q = p
  · rw [if_pos hq] at hx
    rw [hq, hpage]
    exact hx
  · rw [if_neg hq] at hx
    exact hothers q hq x hx

/-- First nothing happens, and then something. -/
theorem Same.trans_becomes {u : Nat → Option (Int × PageData D)} (h : Same cfg s s')
    (hu : Becomes cfg u s' s'') : Becomes cfg u s s'' := by
  intro p c hc
  refine hu p c ?_
  cases hup : u p with
  | some x =>
    rw [hup] at hc
    exact hc
  | none =>
    rw [hup] at hc
    exact h p c hc

theorem Replaces.trans {o o' : Option (Frame D)} (h : Replaces s s' p o) (h' : Replaces s' s'' p o') :
    Replaces s s'' p o' := by
  intro q
  rw [h', h]
  split <;> rfl

/-! ## The header -/

/-- The header is in the frame of page 0. -/
theorem header_eq_some {h : BPFileHeader} :
    s.header = some h ↔ ∃ f, s.frame 0 = some f ∧ f.page.data = .header h := by
  unfold header
  constructor
  · intro hh
    split at hh
    · rename_i hf
      obtain rfl := Option.some.inj hh
      exact ⟨_, hf, rfl⟩
    · cases hh
  · rintro ⟨⟨pageNum, ⟨l, checkSum, data⟩, dirty, pinCount⟩, hf, hdata⟩
    obtain rfl : data = .header h := hdata
    rw [hf]

theorem Layered.header_isSome (h : Layered cfg s) : ∃ h₀, s.header = some h₀ ∧ 0 < h₀.pageCount := by
  obtain ⟨f, h₀, hf, -, hdata, hcount⟩ := h.header
  exact ⟨h₀, header_eq_some.mpr ⟨f, hf, hdata⟩, hcount⟩

/-- The header is what the header page shows. -/
theorem Layered.header_iff (h : Layered cfg s) {h₀ : BPFileHeader} :
    s.header = some h₀ ↔ ∃ l, s.content cfg 0 = some (l, .header h₀) := by
  constructor
  · intro hh
    obtain ⟨f, hf, hdata⟩ := header_eq_some.mp hh
    refine ⟨f.page.lsn, ?_⟩
    rw [content_of_frame hf, ← hdata]
    rfl
  · rintro ⟨l, hc⟩
    obtain ⟨f, h₁, hf, -, hdata, -⟩ := h.header
    rw [content_of_frame hf] at hc
    have hsnd := congrArg Prod.snd (Option.some.inj hc)
    exact header_eq_some.mpr ⟨f, hf, hsnd⟩

/-- Where the content stays, so does the header. -/
theorem Layered.header_same (h : Layered cfg s) (h' : Layered cfg s') (hsame : Same cfg s s') :
    s'.header = s.header := by
  obtain ⟨h₀, hh, -⟩ := h.header_isSome
  obtain ⟨l, hc⟩ := h.header_iff.mp hh
  rw [hh]
  exact h'.header_iff.mpr ⟨l, hsame _ _ hc⟩

/-- The pages that the new header counts have to be there. -/
theorem Layered.setHeader (h : Layered cfg s) (h₁ : BPFileHeader) (lsn : Int) (hcount : 0 < h₁.pageCount)
    (hpresent : ∀ p < h₁.pageCount, (s.below cfg p).isSome) :
    Layered cfg (s.setHeader h₁ lsn) ∧ (s.setHeader h₁ lsn).header = some h₁ ∧
      Becomes cfg (written 0 (lsn, .header h₁)) s (s.setHeader h₁ lsn) := by
  -- the frame of the header is in memory, so only it is written
  obtain ⟨f, -, hf, hpin, -, -⟩ := h.header
  have hnum := (frame_some hf).2
  have heq : s.setHeader h₁ lsn =
      s.setFrame { f with page := { f.page with lsn, data := .header h₁ }, dirty := true } := by
    unfold DiskBufferPool.setHeader
    rw [hf]
  have hframes : Replaces s (s.setHeader h₁ lsn) 0
      (some { f with page := { f.page with lsn, data := .header h₁ }, dirty := true }) := by
    intro q
    rw [heq, setFrame_replaces (Option.isSome_iff_exists.mpr ⟨f, hnum ▸ hf⟩)]
    show (if q = f.pageNum then _ else _) = _
    rw [hnum]
  have hzero := hframes 0
  rw [if_pos rfl] at hzero
  have hbelow : ∀ q, (s.setHeader h₁ lsn).below cfg q = s.below cfg q := by
    rw [heq]
    exact below_congr cfg rfl rfl
  refine ⟨⟨?_, ?_, ?_, ?_, ?_⟩, header_eq_some.mpr ⟨_, hzero, rfl⟩, ?_⟩
  · rw [heq]
    exact h.tidy
  · rw [heq]
    exact setFrame_nodup h.nodup
  -- the frame of the header is dirty now, so what is below it may differ
  · intro q g hg hdirty
    rw [hbelow]
    rw [hframes] at hg
    split at hg
    · obtain rfl := Option.some.inj hg
      cases hdirty
    · exact h.clean q g hg hdirty
  · exact ⟨_, h₁, hzero, hpin, rfl, hcount⟩
  -- the pages the new header counts are below the frames by assumption
  · intro g h₂ hg hh₂ q hq
    rw [hbelow]
    obtain rfl := Option.some.inj (hzero.symm.trans hg)
    injection hh₂ with hh₂
    subst hh₂
    exact hpresent q hq
  · refine becomes_written (content_of_frame hzero) fun q hq x hx => ?_
    unfold content at hx ⊢
    rw [hframes, hbelow, if_neg hq]
    exact hx

theorem Layered.setHeader_same (h : Layered cfg s) {h₀ : BPFileHeader} (h₁ : BPFileHeader) (lsn : Int)
    (hh : s.header = some h₀) (hcount : h₁.pageCount = h₀.pageCount) :
    Layered cfg (s.setHeader h₁ lsn) ∧ (s.setHeader h₁ lsn).header = some h₁ ∧
      Becomes cfg (written 0 (lsn, .header h₁)) s (s.setHeader h₁ lsn) := by
  obtain ⟨f, hf, hdata⟩ := header_eq_some.mp hh
  obtain ⟨h₀', hh₀, hpos⟩ := h.header_isSome
  obtain rfl := Option.some.inj (hh.symm.trans hh₀)
  refine h.setHeader h₁ lsn (hcount ▸ hpos) fun p hp => ?_
  exact h.present f h₀ hf hdata p (hcount ▸ hp)

/-! ## Reading -/

theorem loadPage_eq (s : DiskBufferPool D) (p : Nat) : s.loadPage cfg p =
    match s.below cfg p with
    | some page => .ok page
    | none => .error .ioerrRead := by
  unfold loadPage below stored DiskDoubleWriteBuffer.readPage
  cases s.dblwr.find (key cfg p) with
  | some q => rfl
  | none => rfl

/-- **`get_this_page`.** -/
theorem Layered.getThisPage (h : Layered cfg s) {r : Result D}
    (hrun : s.getThisPage cfg p t = .ok (r, s')) :
    Layered cfg s' ∧ Same cfg s s' ∧
      ((∃ page, r = .ok (some (p, page)) ∧ s'.content cfg p = some page.content) ∨
        (r = .error .ioerrRead ∧ s.content cfg p = none)) := by
  unfold DiskBufferPool.getThisPage at hrun
  cases hp : s.frame p with
  | some f =>
    rw [hp] at hrun
    obtain ⟨rfl, rfl⟩ := Prod.mk.inj (Except.ok.inj hrun)
    obtain ⟨h', hsame⟩ := h.get hp
    exact ⟨h', hsame, Or.inl ⟨f.page, rfl, hsame _ _ (content_of_frame hp)⟩⟩
  | none =>
    rw [hp] at hrun
    obtain ⟨⟨f, s₂⟩, halloc, hload⟩ := ok_of_bind hrun
    obtain ⟨s₁, h₁, hsame, hnone, hframes, hnodup, hnum, hpin, hdblwr, hfiles⟩ :=
      h.allocateFrame hp halloc
    have hbelow := below_congr cfg hdblwr hfiles
    have hframe : s₂.frame p = some f := by rw [hframes, if_pos rfl]
    subst hnum
    dsimp only at hload
    rw [loadPage_eq, hbelow] at hload
    cases hpage : s₁.below cfg f.pageNum with
    | some page =>
      rw [hpage] at hload
      obtain ⟨rfl, rfl⟩ := Prod.mk.inj (Except.ok.inj hload)
      have hset : Replaces s₁ (s₂.setFrame { f with page }) f.pageNum (some { f with page }) :=
        hframes.trans (setFrame_replaces (f := { f with page })
          (Option.isSome_iff_exists.mpr ⟨f, hframe⟩))
      refine ⟨h₁.replace hdblwr hfiles (setFrame_nodup hnodup) hset ?_ ?_,
        hsame.trans (hset.same hdblwr hfiles ?_), Or.inl ⟨page, rfl, ?_⟩⟩
      · intro g hg _
        obtain rfl := Option.some.inj hg
        rw [hpage]
        rfl
      · -- the header page has a frame
        intro hzero
        obtain ⟨f₀, -, hf₀, -⟩ := h₁.header
        rw [hzero, hf₀] at hnone
        cases hnone
      · intro c hc
        rw [content_of_no_frame hnone, hpage] at hc
        exact hc
      · have hshow := hset f.pageNum
        rw [if_pos rfl] at hshow
        exact content_of_frame hshow
    | none =>
      rw [hpage] at hload
      obtain ⟨rfl, rfl⟩ := Prod.mk.inj (Except.ok.inj hload)
      have hno : s.content cfg f.pageNum = none := by
        cases hc : s.content cfg f.pageNum with
        | none => rfl
        | some c =>
          have := hsame _ _ hc
          rw [content_of_no_frame hnone, hpage] at this
          cases this
      -- what the frame has held may be written down on its way out, but nothing is stored there
      have hpurge : Layered cfg (s₂.purgeFrame cfg f t).2 ∧ Same cfg s₁ (s₂.purgeFrame cfg f t).2 := by
        unfold purgeFrame
        rw [if_neg fun hne => hne hpin]
        split
        · obtain ⟨f', heq, hnum', -, -, -, hreplaces, htidy, -, hothers⟩ :=
            flushPageInternal_spec cfg t (s := s₂) (f := f)
              (by rw [hdblwr]; exact h₁.tidy) (Option.isSome_iff_exists.mpr ⟨f, hframe⟩)
          dsimp only
          rw [heq]
          refine h₁.stays htidy (free_nodup (setFrame_nodup
            (s := s₂.writeDown cfg _) hnodup)) (fun q => ?_) fun q x hx => ?_
          · rw [free_replaces, hnum', hreplaces, hframes]
            split
            · rename_i hq
              rw [hq, hnone]
            · rfl
          · have hq : q ≠ f.pageNum := by
              rintro rfl
              rw [hpage] at hx
              cases hx
            exact hothers q hq x ((hbelow q).trans hx)
        · refine h₁.stays (by rw [show (s₂.free f).dblwr = s₂.dblwr from rfl, hdblwr]; exact h₁.tidy)
            (free_nodup hnodup) (fun q => ?_) fun q x hx => ?_
          · rw [free_replaces, hframes]
            split
            · rename_i hq
              rw [hq, hnone]
            · rfl
          · exact (hbelow q).trans hx
      exact ⟨hpurge.1, hsame.trans hpurge.2, Or.inr ⟨rfl, hno⟩⟩

/-- A page is not found only where the pool is stuck. -/
theorem Layered.getThisPage_error (h : Layered cfg s) {e : BufferFault}
    (hrun : s.getThisPage cfg p t = .error e) : Stuck s p := by
  unfold DiskBufferPool.getThisPage at hrun
  cases hp : s.frame p with
  | some f =>
    rw [hp] at hrun
    cases hrun
  | none =>
    rw [hp] at hrun
    rcases error_of_bind hrun with halloc | ⟨⟨f, s₂⟩, -, hload⟩
    · exact h.allocateFrame_error halloc
    · dsimp only at hload
      split at hload <;> cases hload

/-- Each page below the page count has a content. -/
theorem Layered.content_isSome (h : Layered cfg s) {h₀ : BPFileHeader} (hh : s.header = some h₀)
    (hp : p < h₀.pageCount) : ∃ c, s.content cfg p = some c := by
  obtain ⟨f₀, hf₀, hdata⟩ := header_eq_some.mp hh
  obtain ⟨x, hx⟩ := Option.isSome_iff_exists.mp (h.present f₀ h₀ hf₀ hdata p hp)
  cases hf : s.frame p with
  | some f => exact ⟨_, content_of_frame hf⟩
  | none =>
    refine ⟨x.content, ?_⟩
    rw [content_of_no_frame hf, hx]
    rfl

/-! ## Allocation -/

theorem freePage_some {h₀ : BPFileHeader} (hfree : h₀.freePage = some p) : p < h₀.pageCount := by
  unfold BPFileHeader.freePage at hfree
  split at hfree
  · exact List.mem_range.mp (List.mem_of_find?_eq_some hfree)
  · cases hfree

/-- A page that is allocated, and the header. -/
def allocates (lsn : Int) (h₀ : BPFileHeader) (p : Nat) (page : Page (PageData D)) :
    Nat → Option (Int × PageData D) := fun q =>
  (written p page.content q).or (written 0 (lsn, .header (h₀.allocate p)) q)

/-- A new page is written, and the header counts it. -/
theorem becomes_allocates {h₀ : BPFileHeader} {page : Page (PageData D)}
    (hpage : s''.content cfg p = some page.content)
    (hpages : ∀ q ≠ p, ∀ x, s.content cfg q = some x → s'.content cfg q = some x)
    (hheader : Becomes cfg (written 0 (lsn, .header (h₀.allocate p))) s' s'') :
    Becomes cfg (allocates lsn h₀ p page) s s'' := by
  intro q x hx
  unfold allocates written at hx
  by_cases hq : q = p
  · rw [if_pos hq] at hx
    rw [hq, hpage]
    exact hx
  · rw [if_neg hq, Option.none_or] at hx
    refine hheader q x ?_
    unfold written
    by_cases hzero : q = 0
    · rw [if_pos hzero] at hx ⊢
      exact hx
    · rw [if_neg hzero] at hx ⊢
      exact hpages q hq x hx

/-- **A page number that has been disposed.** -/
theorem Layered.allocatePage_free (h : Layered cfg s) {h₀ : BPFileHeader} (hh : s.header = some h₀)
    (hfree : h₀.freePage = some p) {r : Result D}
    (hrun : (s.setHeader (h₀.allocate p) lsn).getThisPage cfg p t = .ok (r, s')) :
    ∃ page, r = .ok (some (p, page)) ∧ Layered cfg s' ∧ s'.header = some (h₀.allocate p) ∧
      Becomes cfg (allocates lsn h₀ p page) s s' := by
  have hp := freePage_some hfree
  obtain ⟨h₁, hh₁, hbecomes⟩ := h.setHeader_same (h₀.allocate p) lsn hh (Nat.max_eq_left hp)
  obtain ⟨h', hsame, hresult⟩ := h₁.getThisPage hrun
  rcases hresult with ⟨page, rfl, hpage⟩ | ⟨-, hnone⟩
  · exact ⟨page, rfl, h', (h₁.header_same h' hsame).trans hh₁,
      becomes_allocates hpage (fun _ _ _ hx => hx) fun q x hx => hsame q x (hbecomes q x hx)⟩
  · obtain ⟨c, hc⟩ := h₁.content_isSome hh₁ (Nat.lt_of_lt_of_le hp (Nat.le_max_left _ _))
    rw [hnone] at hc
    cases hc

/-- `allocate_frame`, whether the page is in a frame or not. -/
theorem Layered.allocateFrame_any (h : Layered cfg s)
    (hrun : s.allocateFrame cfg p t = .ok (f, s')) :
    ∃ s₁, Layered cfg s₁ ∧ Same cfg s s₁ ∧ Replaces s₁ s' p (some f) ∧
      (s'.frames.map Frame.pageNum).Nodup ∧ f.pageNum = p ∧ s'.dblwr = s₁.dblwr ∧
      s'.files = s₁.files := by
  cases hp : s.frame p with
  | none =>
    obtain ⟨s₁, h₁, hsame, -, hframes, hnodup, hnum, -, hdblwr, hfiles⟩ := h.allocateFrame hp hrun
    exact ⟨s₁, h₁, hsame, hframes, hnodup, hnum, hdblwr, hfiles⟩
  | some f₀ =>
    unfold DiskBufferPool.allocateFrame at hrun
    rw [hp] at hrun
    obtain ⟨rfl, rfl⟩ := Prod.mk.inj (Except.ok.inj hrun)
    obtain ⟨-, rfl⟩ := frame_some hp
    exact ⟨s, h, .refl s, get_replaces s f₀, get_nodup h.nodup, rfl, rfl, rfl⟩

/-- Frames of two pages do not disturb each other. -/
theorem setFrame_comm {g : Frame D} (hne : f.pageNum ≠ g.pageNum) :
    (s.setFrame f).setFrame g = (s.setFrame g).setFrame f := by
  unfold setFrame
  dsimp only
  congr 1
  rw [List.map_map, List.map_map]
  refine List.map_congr_left fun k _ => ?_
  dsimp only [Function.comp_apply]
  by_cases hf : k.pageNum = f.pageNum
  · rw [if_pos hf, if_neg hne, if_neg fun heq => hne (hf.symm.trans heq), if_pos hf]
  · rw [if_neg hf]
    split
    · exact (if_neg hne.symm).symm
    · rfl

/-- The header and another frame do not get in each other's way. -/
theorem flush_setHeader {h₁ : BPFileHeader} (hf : (s.frame f.pageNum).isSome) (hp : f.pageNum ≠ 0) :
    (((s.setHeader h₁ lsn).setFrame f).flushPageInternal cfg f t).2 =
      ((s.setFrame f).flushPageInternal cfg f t).2.setHeader h₁ lsn := by
  have hset : ((s.setFrame f).frame f.pageNum).isSome := by
    rw [setFrame_replaces hf, if_pos rfl]
    rfl
  -- the frame that the flush leaves is under the same number
  obtain ⟨f', heq, hnum⟩ : ∃ f', f' = ((s.setFrame f).flushPageInternal cfg f t).1 ∧
      f'.pageNum = f.pageNum := ⟨_, rfl, rfl⟩
  -- the header frame is not the one that is flushed
  have hzero : ((s.setFrame f).flushPageInternal cfg f t).2.frame 0 = s.frame 0 := by
    have := setFrame_replaces (s := (s.setFrame f).writeDown cfg ((s.setFrame f).dblwr.addPage
      cfg.maxPages (key cfg f.pageNum) { f.page with checkSum := cfg.fmt.crc32 f.page.data } t))
      (f := f') (hnum ▸ hset) 0
    subst heq
    refine this.trans ?_
    rw [if_neg fun h => hp (hnum.symm.trans h.symm)]
    refine (setFrame_replaces hf 0).trans ?_
    rw [if_neg hp.symm]
  unfold DiskBufferPool.setHeader
  rw [hzero]
  -- the two writes are to different frames, so their order does not matter
  cases hf₀ : s.frame 0 with
  | none => rfl
  | some f₀ =>
    have hnum₀ := (frame_some hf₀).2
    have hne : f₀.pageNum ≠ f.pageNum := fun h => hp (h.symm.trans hnum₀)
    dsimp only
    unfold flushPageInternal
    dsimp only
    rw [setFrame_comm (s := s) (by exact hne)]
    exact setFrame_comm (s := (s.setFrame f).writeDown cfg _) (by exact hne)

/-- **A page number behind the last one.** -/
theorem Layered.allocatePage_fresh (h : Layered cfg s) {h₀ : BPFileHeader} (hh : s.header = some h₀)
    {s₂ : DiskBufferPool D} (halloc : s.allocateFrame cfg h₀.pageCount t = .ok (f, s₂))
    (hs' : s' = (((s₂.setHeader (h₀.allocate h₀.pageCount) lsn).setFrame
      { f with page := cfg.fmt.zeroPage }).flushPageInternal cfg
        { f with page := cfg.fmt.zeroPage } t).2) :
    Layered cfg s' ∧ s'.header = some (h₀.allocate h₀.pageCount) ∧
      Becomes cfg (allocates lsn h₀ h₀.pageCount cfg.fmt.zeroPage) s s' := by
  obtain ⟨s₁, h₁, hsame, hframes, hnodup, hnum, hdblwr, hfiles⟩ := h.allocateFrame_any halloc
  have hh₁ := (h.header_same h₁ hsame).trans hh
  obtain ⟨f₀, hf₀, hdata⟩ := header_eq_some.mp hh₁
  obtain ⟨h₀', hh₀, hpos⟩ := h₁.header_isSome
  obtain rfl := Option.some.inj (hh₁.symm.trans hh₀)
  have hne : f.pageNum ≠ 0 := hnum ▸ Nat.pos_iff_ne_zero.mp hpos
  have hframe : (s₂.frame f.pageNum).isSome := by
    rw [hframes, if_pos hnum]
    rfl
  rw [flush_setHeader (f := { f with page := cfg.fmt.zeroPage }) hframe hne] at hs'
  -- first the page, then the header
  have hset := setFrame_replaces (f := { f with page := cfg.fmt.zeroPage }) hframe
  obtain ⟨f', -, -, -, -, hpage, hframes', htidy, hbelow, hothers⟩ :=
    flushPageInternal_spec cfg t (s := s₂.setFrame { f with page := cfg.fmt.zeroPage })
      (f := { f with page := cfg.fmt.zeroPage }) (by
        show Tidy s₂.dblwr
        rw [hdblwr]
        exact h₁.tidy) (by
        rw [hset, if_pos rfl]
        rfl)
  have hnodup' : ((((s₂.setFrame { f with page := cfg.fmt.zeroPage }).flushPageInternal cfg
      { f with page := cfg.fmt.zeroPage } t).2).frames.map Frame.pageNum).Nodup :=
    setFrame_nodup (s := (s₂.setFrame { f with page := cfg.fmt.zeroPage }).writeDown cfg _)
      (setFrame_nodup hnodup)
  generalize ((s₂.setFrame { f with page := cfg.fmt.zeroPage }).flushPageInternal cfg
    { f with page := cfg.fmt.zeroPage } t).2 = s₃ at *
  dsimp only at hset hpage hframes' hbelow hothers
  rw [hnum] at hset hframes' hbelow hothers
  have hbelow₂ : ∀ q, (s₂.setFrame { f with page := cfg.fmt.zeroPage }).below cfg q =
      s₁.below cfg q := below_congr cfg hdblwr hfiles
  obtain ⟨h₃, hpage₃, hpages₃⟩ := h₁.install htidy hnodup' ((hframes.trans hset).trans hframes')
    (hbelow.trans (congrArg some hpage.symm)) (fun q hq x hx => hothers q hq x ((hbelow₂ q).trans hx))
    fun hzero => absurd (hnum.trans hzero) hne
  have hcount : (h₀.allocate h₀.pageCount).pageCount = h₀.pageCount + 1 :=
    Nat.max_eq_right (Nat.le_succ _)
  obtain ⟨h₄, hh₄, hbecomes⟩ := h₃.setHeader (h₀.allocate h₀.pageCount) lsn
    (hcount ▸ Nat.succ_pos _) fun q hq => by
      by_cases hlast : q = h₀.pageCount
      · obtain ⟨x, hx, -⟩ := Option.map_eq_some_iff.mp hbelow
        rw [hlast, hx]
        rfl
      · obtain ⟨x, hx⟩ := Option.isSome_iff_exists.mp
          (h₁.present f₀ h₀ hf₀ hdata q (by rw [hcount] at hq; omega))
        rw [hothers q hlast x ((hbelow₂ q).trans hx)]
        rfl
  subst hs'
  refine ⟨h₄, hh₄, hsame.trans_becomes ?_⟩
  refine becomes_allocates (hbecomes _ _ ?_) hpages₃ hbecomes
  unfold written
  rw [if_neg (hnum ▸ hne), Option.none_or, hpage₃, hpage]

/-- **`allocate_page`.** -/
theorem Layered.allocatePage (h : Layered cfg s) {h₀ : BPFileHeader} (hh : s.header = some h₀)
    {r : Result D} (hrun : s.allocatePage cfg lsn t = .ok (r, s')) :
    (r = .error .bufferpoolNobuf ∧ s' = s) ∨
      ∃ p page, r = .ok (some (p, page)) ∧ p ≤ h₀.pageCount ∧ Layered cfg s' ∧
        s'.header = some (h₀.allocate p) ∧ Becomes cfg (allocates lsn h₀ p page) s s' := by
  unfold DiskBufferPool.allocatePage at hrun
  rw [hh] at hrun
  dsimp only at hrun
  cases hfree : h₀.freePage with
  | some p =>
    rw [hfree] at hrun
    obtain ⟨page, hr, hrest⟩ := h.allocatePage_free hh hfree hrun
    exact Or.inr ⟨p, page, hr, Nat.le_of_lt (freePage_some hfree), hrest⟩
  | none =>
    rw [hfree] at hrun
    dsimp only at hrun
    split at hrun
    · obtain ⟨rfl, rfl⟩ := Prod.mk.inj (Except.ok.inj hrun)
      exact Or.inl ⟨rfl, rfl⟩
    · obtain ⟨⟨f, s₂⟩, halloc, hrest⟩ := ok_of_bind hrun
      obtain ⟨rfl, rfl⟩ := Prod.mk.inj (Except.ok.inj hrest)
      obtain ⟨h', hh', hbecomes⟩ := h.allocatePage_fresh hh halloc rfl
      exact Or.inr ⟨h₀.pageCount, _, rfl, Nat.le_refl _, h', hh', hbecomes⟩

/-! ## The other operations -/

/-- A change of a frame in its place that does not touch the header. -/
theorem Layered.change (h : Layered cfg s) (hf : s.frame f.pageNum = some f) {f' : Frame D}
    (hnum : f'.pageNum = f.pageNum) (hp : f.pageNum ≠ 0)
    (hclean : f'.dirty = false → f.dirty = false ∧ f'.page = f.page) :
    Layered cfg (s.setFrame f') ∧ Becomes cfg (written f.pageNum f'.page.content) s (s.setFrame f') := by
  have hset := setFrame_replaces (s := s) (f := f') (by
    rw [hnum]
    exact Option.isSome_iff_exists.mpr ⟨f, hf⟩)
  rw [hnum] at hset
  have hpage := hset f.pageNum
  rw [if_pos rfl] at hpage
  refine ⟨h.replace rfl rfl (setFrame_nodup h.nodup) hset ?_ fun heq => absurd heq hp,
    becomes_written (content_of_frame hpage) fun q hq x hx => ?_⟩
  · intro g hg hdirty
    obtain rfl := Option.some.inj hg
    obtain ⟨hd, heq⟩ := hclean hdirty
    rw [heq]
    exact h.clean _ f hf hd
  · unfold content at hx ⊢
    rw [hset, if_neg hq]
    exact hx

/-- **`dispose_page`.**  The page itself shows what is below the frame from now on. -/
theorem Layered.disposePage (h : Layered cfg s) {h₀ : BPFileHeader} (hh : s.header = some h₀)
    {r : Result D} (hp : p ≠ 0) (hrun : s.disposePage p lsn = .ok (r, s')) :
    r = .ok none ∧ Layered cfg s' ∧ s'.header = some (h₀.dispose p) ∧
      ∀ q ≠ p, ∀ c, (written 0 (lsn, .header (h₀.dispose p)) q).or (s.content cfg q) = some c →
        s'.content cfg q = some c := by
  unfold DiskBufferPool.disposePage at hrun
  rw [if_neg hp] at hrun
  obtain ⟨s₁, hdrop, hrest⟩ := ok_of_bind hrun
  -- the frame, dirty or not
  have hs₁ : Layered cfg s₁ ∧ ∀ q ≠ p, ∀ c, s.content cfg q = some c → s₁.content cfg q = some c := by
    cases hf : s.frame p with
    | none =>
      rw [hf] at hdrop
      obtain rfl := Except.ok.inj hdrop
      exact ⟨h, fun _ _ _ hc => hc⟩
    | some f =>
      rw [hf] at hdrop
      dsimp only at hdrop
      split at hdrop
      · cases hdrop
      · obtain rfl := Except.ok.inj hdrop
        obtain ⟨-, rfl⟩ := frame_some hf
        have hframes := free_replaces s { f with pinCount := 0 }
        refine ⟨h.replace rfl rfl (free_nodup h.nodup) hframes nofun fun heq => absurd heq hp,
          fun q hq c hc => ?_⟩
        unfold content at hc ⊢
        rw [hframes, if_neg (by exact hq)]
        exact hc
  obtain ⟨h₁, hcontents⟩ := hs₁
  have hh₁ : s₁.header = some h₀ := by
    obtain ⟨l, hc⟩ := h.header_iff.mp hh
    exact h₁.header_iff.mpr ⟨l, hcontents 0 hp.symm _ hc⟩
  rw [hh₁] at hrest
  obtain ⟨rfl, rfl⟩ := Prod.mk.inj (Except.ok.inj hrest)
  obtain ⟨h', hh', hbecomes⟩ := h₁.setHeader_same (h₀.dispose p) lsn hh₁ rfl
  refine ⟨rfl, h', hh', fun q hq c hc => hbecomes q c ?_⟩
  cases hw : written 0 (lsn, PageData.header (D := D) (h₀.dispose p)) q with
  | some x =>
    rw [hw] at hc
    exact hc
  | none =>
    rw [hw] at hc
    exact hcontents q hq c hc

/-- A page that is held is written in its frame. -/
theorem Layered.writeFrame (h : Layered cfg s) {d : D} {r : Result D}
    (hrun : s.writeFrame p lsn d = .ok (r, s')) :
    r = .ok none ∧ p ≠ 0 ∧ Layered cfg s' ∧ Becomes cfg (written p (lsn, .data d)) s s' := by
  unfold DiskBufferPool.writeFrame at hrun
  split at hrun
  · cases hrun
  · rename_i f hf
    split at hrun
    · cases hrun
    · rename_i hok
      obtain ⟨rfl, rfl⟩ := Prod.mk.inj (Except.ok.inj hrun)
      obtain ⟨-, rfl⟩ := frame_some hf
      have hp : f.pageNum ≠ 0 := fun heq => hok (Or.inr heq)
      exact ⟨rfl, hp, h.change hf rfl hp nofun⟩

/-- Giving a frame back changes no content. -/
theorem Layered.unpinPage (h : Layered cfg s) {r : Result D}
    (hrun : s.unpinPage p = .ok (r, s')) : r = .ok none ∧ Layered cfg s' ∧ Same cfg s s' := by
  unfold DiskBufferPool.unpinPage at hrun
  split at hrun
  · cases hrun
  · rename_i f hf
    split at hrun
    · cases hrun
    · rename_i hok
      obtain ⟨rfl, rfl⟩ := Prod.mk.inj (Except.ok.inj hrun)
      obtain ⟨-, rfl⟩ := frame_some hf
      have hset := setFrame_replaces (s := s) (f := { f with pinCount := f.pinCount - 1 })
        (Option.isSome_iff_exists.mpr ⟨f, hf⟩)
      refine ⟨rfl, h.replace rfl rfl (setFrame_nodup h.nodup) hset ?_ ?_, hset.same rfl rfl ?_⟩
      · intro g hg hdirty
        obtain rfl := Option.some.inj hg
        exact h.clean _ f hf hdirty
      · intro hzero
        dsimp only at hzero
        refine ⟨f, _, hzero ▸ hf, rfl, ?_, rfl⟩
        show 0 < f.pinCount - 1
        omega
      · intro c hc
        rw [content_of_frame hf] at hc
        exact hc

/-- Nor does flushing it. -/
theorem Layered.flushPage (h : Layered cfg s) (p : Nat) (t : Traversal (PageData D)) :
    Layered cfg (s.flushPage cfg p t) ∧ Same cfg s (s.flushPage cfg p t) := by
  unfold DiskBufferPool.flushPage
  split
  · exact ⟨h, .refl s⟩
  · rename_i f hf
    obtain ⟨-, rfl⟩ := frame_some hf
    obtain ⟨f', -, -, -, -, h', -, hsame⟩ := h.flush (t := t) hf
    exact ⟨h', hsame⟩

/-- **Run.**  The loop of `flush_all_pages`. -/
theorem Layered.flushFrames {t : Traversal (PageData D)} (ps : List Nat) :
    ∀ {s : DiskBufferPool D}, Layered cfg s →
      Layered cfg (DiskBufferPool.flushFrames cfg t ps s) ∧
        Same cfg s (DiskBufferPool.flushFrames cfg t ps s) := by
  induction ps with
  | nil => exact fun {s} h => ⟨h, .refl s⟩
  | cons p ps ih =>
    intro s h
    obtain ⟨h₁, hsame⟩ := h.flushPage p t
    obtain ⟨h', hsame'⟩ := ih h₁
    exact ⟨h', hsame.trans hsame'⟩

/-- Nor does purging it: a dirty frame is flushed before. -/
theorem Layered.purgeFrame (h : Layered cfg s) (hf : s.frame f.pageNum = some f)
    (hp : f.pageNum = 0 → f.pinCount ≠ 1) :
    Layered cfg (s.purgeFrame cfg f t).2 ∧ Same cfg s (s.purgeFrame cfg f t).2 ∧
      (s.purgeFrame cfg f t).2.frame 0 = s.frame 0 := by
  by_cases hpin : f.pinCount ≠ 1
  · unfold DiskBufferPool.purgeFrame
    rw [if_pos hpin]
    exact ⟨h, .refl s, rfl⟩
  · have hzero : f.pageNum ≠ 0 := fun heq => hpin (hp heq)
    have heq : (s.purgeFrame cfg f t).2 = if f.dirty then
        (s.flushPageInternal cfg f t).2.free (s.flushPageInternal cfg f t).1 else s.free f := by
      unfold DiskBufferPool.purgeFrame
      rw [if_neg hpin]
      split <;> rfl
    obtain ⟨h', hsame, hframes, -⟩ := h.drop (t := t) hf hzero heq
    refine ⟨h', hsame, ?_⟩
    rw [hframes, if_neg hzero.symm]

/-- The header frame is pinned before, so it is not purged. -/
theorem Layered.purgePage (h : Layered cfg s) (p : Nat) (t : Traversal (PageData D)) :
    Layered cfg (s.purgePage cfg p t).2 ∧ Same cfg s (s.purgePage cfg p t).2 := by
  unfold DiskBufferPool.purgePage
  split
  · exact ⟨h, .refl s⟩
  · rename_i f hf
    obtain ⟨h₁, hsame⟩ := h.get hf
    have hframe := get_replaces s f f.pageNum
    rw [if_pos rfl] at hframe
    obtain ⟨h', hsame', -⟩ := h₁.purgeFrame (t := t) (f := (s.get f).1) hframe fun hzero => by
      obtain ⟨f₀, -, hf₀, hpin, -⟩ := h.header
      rw [← (frame_some hf).2, show f.pageNum = 0 from hzero] at hf
      obtain rfl := Option.some.inj (hf.symm.trans hf₀)
      show f.pinCount + 1 ≠ 1
      omega
    exact ⟨h', hsame.trans hsame'⟩

/-- **Run.**  The loop of `purge_all_pages`; the header frame has been pinned twice. -/
theorem Layered.purgeFrames {t : Traversal (PageData D)} (ps : List Nat) :
    ∀ {s : DiskBufferPool D}, Layered cfg s → (∀ f, s.frame 0 = some f → f.pinCount ≠ 1) →
      Layered cfg (DiskBufferPool.purgeFrames cfg t ps s) ∧
        Same cfg s (DiskBufferPool.purgeFrames cfg t ps s) := by
  induction ps with
  | nil => exact fun {s} h _ => ⟨h, .refl s⟩
  | cons p ps ih =>
    intro s h hpin
    unfold DiskBufferPool.purgeFrames
    split
    · exact ih h hpin
    · rename_i f hf
      obtain ⟨-, rfl⟩ := frame_some hf
      obtain ⟨h₁, hsame, hzero⟩ := h.purgeFrame (t := t) hf fun heq => hpin f (heq ▸ hf)
      obtain ⟨h', hsame'⟩ := ih h₁ (hzero.symm ▸ hpin)
      exact ⟨h', hsame.trans hsame'⟩

/-- Nor does purging all of them. -/
theorem Layered.purgeAllPages (h : Layered cfg s) (t : Traversal (PageData D)) :
    Layered cfg (s.purgeAllPages cfg t) ∧ Same cfg s (s.purgeAllPages cfg t) := by
  -- every frame is pinned
  obtain ⟨s₁, hs₁⟩ : ∃ s₁ : DiskBufferPool D, s₁ = { s with
      frames := s.frames.map fun f => { f with pinCount := f.pinCount + 1 } } := ⟨_, rfl⟩
  have hframes : ∀ q, s₁.frame q = (s.frame q).map fun f => { f with pinCount := f.pinCount + 1 } := by
    intro q
    rw [hs₁]
    exact List.find?_map
  have hbelow : ∀ q, s₁.below cfg q = s.below cfg q := by
    rw [hs₁]
    exact below_congr cfg rfl rfl
  have h₁ : Layered cfg s₁ := by
    refine ⟨by rw [hs₁]; exact h.tidy, ?_, ?_, ?_, ?_⟩
    · rw [hs₁]
      dsimp only
      rw [List.map_map]
      exact h.nodup
    · intro q g hg hdirty
      rw [hframes] at hg
      obtain ⟨f, hf, rfl⟩ := Option.map_eq_some_iff.mp hg
      rw [hbelow]
      exact h.clean q f hf hdirty
    · obtain ⟨f, h₀, hf, -, hdata, hcount⟩ := h.header
      refine ⟨{ f with pinCount := f.pinCount + 1 }, h₀, ?_, Nat.succ_pos _, hdata, hcount⟩
      rw [hframes, hf]
      rfl
    · intro g h₀ hg hdata q hq
      rw [hframes] at hg
      obtain ⟨f, hf, rfl⟩ := Option.map_eq_some_iff.mp hg
      rw [hbelow]
      exact h.present f h₀ hf hdata q hq
  have hsame : Same cfg s s₁ := by
    intro q c hc
    unfold content at hc ⊢
    rw [hframes, hbelow]
    cases hf : s.frame q <;> rw [hf] at hc <;> exact hc
  have hpin : ∀ g, s₁.frame 0 = some g → g.pinCount ≠ 1 := by
    intro g hg
    obtain ⟨f₀, -, hf₀, hpin₀, -⟩ := h.header
    rw [hframes, hf₀] at hg
    obtain rfl := Option.some.inj hg
    show f₀.pinCount + 1 ≠ 1
    omega
  obtain ⟨h', hsame'⟩ := h₁.purgeFrames (t := t) (s.frames.map Frame.pageNum) hpin
  unfold DiskBufferPool.purgeAllPages
  rw [← hs₁]
  exact ⟨h', hsame.trans hsame'⟩

end DiskBufferPool

end Miniob.Buffer
