/-
  What a page shows.

  `content` is the page in its frame if it has one, else the page that is stored below.  `Layered`
  says that a frame that is not dirty shows what is below it.  Under it the ways in which pages move
  (eviction, flush, load, the double write buffer being emptied) change no content.
-/
import Miniob.Buffer.BufferPool
import Miniob.Buffer.Stored

namespace Miniob.Buffer

open Miniob.Common Miniob.Storage

variable {D : Type}

namespace DiskBufferPool

/-! ## Frames -/

section Frames

variable {s : DiskBufferPool D} {f : Frame D} {p : Nat}

theorem frame_some (h : s.frame p = some f) : f ∈ s.frames ∧ f.pageNum = p := by
  have hnum := List.find?_some h
  exact ⟨List.mem_of_find?_eq_some h, of_decide_eq_true hnum⟩

theorem frame_none (h : s.frame p = none) : ∀ f ∈ s.frames, f.pageNum ≠ p := by
  intro f hf heq
  have := List.find?_eq_none.mp h f hf
  exact this (decide_eq_true heq)

theorem frame_of_mem (hnodup : (s.frames.map Frame.pageNum).Nodup) (hf : f ∈ s.frames) :
    s.frame f.pageNum = some f := by
  cases hframe : s.frame f.pageNum with
  | none => exact absurd rfl (frame_none hframe f hf)
  | some g =>
    obtain ⟨hg, hnum⟩ := frame_some hframe
    rw [List.inj_on_of_nodup_map hnodup hg hf hnum]

/-- The frames with one of them replaced, taken away or put in. -/
def Replaces (s s' : DiskBufferPool D) (p : Nat) (o : Option (Frame D)) : Prop :=
  ∀ q, s'.frame q = if q = p then o else s.frame q

/-- A frame is replaced by its new state. -/
theorem setFrame_replaces (hf : (s.frame f.pageNum).isSome) :
    Replaces s (s.setFrame f) f.pageNum (some f) := by
  intro q
  unfold frame setFrame
  dsimp only
  rw [List.find?_map]
  have hnum : ((fun g : Frame D => decide (g.pageNum = q)) ∘
      fun g : Frame D => if g.pageNum = f.pageNum then f else g) =
        fun g : Frame D => decide (g.pageNum = q) := by
    funext g
    show decide (Frame.pageNum (if g.pageNum = f.pageNum then f else g) = q) = _
    split
    · rename_i heq
      rw [heq]
    · rfl
  rw [hnum]
  split
  · rename_i heq
    subst heq
    obtain ⟨g, hg⟩ := Option.isSome_iff_exists.mp hf
    have hg' := (frame_some hg).2
    unfold frame at hg
    rw [hg, Option.map_some, if_pos hg']
  · rename_i hne
    cases hg : List.find? (fun g : Frame D => decide (g.pageNum = q)) s.frames with
    | none => rfl
    | some g =>
      have hg' := List.find?_some hg
      replace hg' : g.pageNum = q := of_decide_eq_true hg'
      rw [Option.map_some, if_neg]
      exact fun heq => hne (hg'.symm.trans heq)

/-- There is still one frame for each page. -/
theorem setFrame_nodup (hnodup : (s.frames.map Frame.pageNum).Nodup) :
    ((s.setFrame f).frames.map Frame.pageNum).Nodup := by
  have hmap : (s.setFrame f).frames.map Frame.pageNum = s.frames.map Frame.pageNum := by
    unfold setFrame
    dsimp only
    rw [List.map_map]
    refine List.map_congr_left fun g _ => ?_
    show Frame.pageNum (if g.pageNum = f.pageNum then f else g) = g.pageNum
    split
    · rename_i heq
      exact heq.symm
    · rfl
  rw [hmap]
  exact hnodup

/-- The other frames. -/
theorem find_filter (frames : List (Frame D)) (p q : Nat) :
    (frames.filter fun g => g.pageNum ≠ p).find? (fun g => g.pageNum = q) =
      if q = p then none else frames.find? fun g => g.pageNum = q := by
  induction frames with
  | nil => split <;> rfl
  | cons g frames ih =>
    by_cases hg : g.pageNum = p
    · rw [List.filter_cons_of_neg (by simpa using hg), ih]
      split
      · rfl
      · rename_i hne
        rw [List.find?_cons_of_neg]
        simpa [hg] using fun heq => hne heq.symm
    · rw [List.filter_cons_of_pos (by simpa using hg)]
      by_cases hq : g.pageNum = q
      · rw [List.find?_cons_of_pos (by simpa using hq), List.find?_cons_of_pos (by simpa using hq),
          if_neg fun heq => hg (hq.trans heq)]
      · rw [List.find?_cons_of_neg (by simpa using hq), List.find?_cons_of_neg (by simpa using hq), ih]

theorem free_replaces (s : DiskBufferPool D) (f : Frame D) :
    Replaces s (s.free f) f.pageNum none :=
  fun q => find_filter s.frames f.pageNum q

theorem free_nodup (hnodup : (s.frames.map Frame.pageNum).Nodup) :
    ((s.free f).frames.map Frame.pageNum).Nodup :=
  hnodup.sublist (List.filter_sublist.map _)

/-- Getting a frame pins it. -/
theorem get_replaces (s : DiskBufferPool D) (f : Frame D) :
    Replaces s (s.get f).2 f.pageNum (some (s.get f).1) := by
  intro q
  unfold frame get
  dsimp only
  split
  · rename_i heq
    rw [List.find?_cons_of_pos (by simpa using heq.symm)]
  · rename_i hne
    rw [List.find?_cons_of_neg (by simpa using fun heq => hne heq.symm), find_filter, if_neg hne]

theorem get_nodup (hnodup : (s.frames.map Frame.pageNum).Nodup) :
    ((s.get f).2.frames.map Frame.pageNum).Nodup := by
  refine List.nodup_cons.mpr ⟨fun hmem => ?_, hnodup.sublist (List.filter_sublist.map _)⟩
  obtain ⟨g, hg, heq⟩ := List.mem_map.mp hmem
  have := of_decide_eq_true (List.mem_filter.mp hg).2
  exact this heq

/-- A new frame is pinned once, and has no page yet. -/
theorem alloc_some {f : Frame D} {s' : DiskBufferPool D} (h : s.alloc p = some (f, s'))
    (hp : s.frame p = none) (hnodup : (s.frames.map Frame.pageNum).Nodup) :
    Replaces s s' p (some f) ∧ (s'.frames.map Frame.pageNum).Nodup ∧ f.pageNum = p ∧
      f.pinCount = 1 ∧ s'.dblwr = s.dblwr ∧ s'.files = s.files := by
  unfold alloc at h
  split at h
  · cases h
  · rename_i f₀ frees hfrees
    obtain ⟨rfl, rfl⟩ := Prod.mk.inj (Option.some.inj h)
    refine ⟨fun q => ?_, ?_, rfl, rfl, rfl, rfl⟩
    · unfold frame
      dsimp only
      split
      · rename_i heq
        rw [List.find?_cons_of_pos (by simpa using heq.symm)]
      · rename_i hne
        rw [List.find?_cons_of_neg (by simpa using fun heq => hne heq.symm)]
    · refine List.nodup_cons.mpr ⟨fun hmem => ?_, hnodup⟩
      obtain ⟨g, hg, heq⟩ := List.mem_map.mp hmem
      exact frame_none hp g hg heq

end Frames

/-! ## The layers -/

variable (cfg : PoolConfig D)

/-- The page below the frames. -/
def below (s : DiskBufferPool D) (p : Nat) : Option (Page (PageData D)) :=
  stored s.dblwr s.files (key cfg p)

/-- What a frame, if there is one, shows in front of the page below. -/
def shown : Option (Frame D) → Option (Page (PageData D)) → Option (Int × PageData D)
  | some f, _ => some f.page.content
  | none, page => page.map Page.content

def content (s : DiskBufferPool D) (p : Nat) : Option (Int × PageData D) :=
  shown (s.frame p) (s.below cfg p)

/-- The pool lies over the double-write buffer, and that over the files: each has what it needs. -/
structure Layered (s : DiskBufferPool D) : Prop where
  tidy : Tidy s.dblwr
  nodup : (s.frames.map Frame.pageNum).Nodup
  /-- A frame that is not dirty shows what is below it. -/
  clean : ∀ p f, s.frame p = some f → f.dirty = false →
    (s.below cfg p).map Page.content = some f.page.content
  /-- The header page is in a frame, and stays there; it counts itself. -/
  header : ∃ f h, s.frame 0 = some f ∧ 0 < f.pinCount ∧ f.page.data = .header h ∧ 0 < h.pageCount
  /-- The pages that the header counts have been written. -/
  present : ∀ f h, s.frame 0 = some f → f.page.data = .header h → ∀ p < h.pageCount,
    (s.below cfg p).isSome

/-- No page has changed its content. -/
def Same (s s' : DiskBufferPool D) : Prop := ∀ p c, s.content cfg p = some c → s'.content cfg p = some c

variable {cfg}

theorem Same.refl (s : DiskBufferPool D) : Same cfg s s := fun _ _ h => h

theorem Same.trans {s₁ s₂ s₃ : DiskBufferPool D} (h₁ : Same cfg s₁ s₂) (h₂ : Same cfg s₂ s₃) :
    Same cfg s₁ s₃ := fun p c h => h₂ p c (h₁ p c h)

section Layers

variable {s s' : DiskBufferPool D} {f : Frame D} {p : Nat} {t : Traversal (PageData D)}

theorem key_inj {p q : Nat} (h : key cfg p = key cfg q) : p = q :=
  congrArg DoubleWritePageKey.pageNum h

theorem content_of_frame (h : s.frame p = some f) : s.content cfg p = some f.page.content := by
  unfold content
  rw [h]
  rfl

theorem content_of_no_frame (h : s.frame p = none) :
    s.content cfg p = (s.below cfg p).map Page.content := by
  unfold content
  rw [h]
  rfl

theorem below_congr (cfg : PoolConfig D) (hdblwr : s'.dblwr = s.dblwr) (hfiles : s'.files = s.files) (q : Nat) :
    s'.below cfg q = s.below cfg q := by
  unfold below
  rw [hdblwr, hfiles]

/-- Other frames, with the same pages below. -/
theorem Layered.replace (h : Layered cfg s) {o : Option (Frame D)} (hdblwr : s'.dblwr = s.dblwr)
    (hfiles : s'.files = s.files) (hnodup : (s'.frames.map Frame.pageNum).Nodup)
    (hframes : Replaces s s' p o)
    (hclean : ∀ f, o = some f → f.dirty = false →
      (s.below cfg p).map Page.content = some f.page.content)
    (hheader : p = 0 → ∃ f f', s.frame 0 = some f ∧ o = some f' ∧ 0 < f'.pinCount ∧
      f'.page.data = f.page.data) : Layered cfg s' := by
  have hbelow := below_congr cfg hdblwr hfiles
  refine ⟨by rw [hdblwr]; exact h.tidy, hnodup, ?_, ?_, ?_⟩
  · intro q f hf hdirty
    rw [hbelow]
    rw [hframes] at hf
    split at hf
    · rename_i heq
      subst heq
      exact hclean f hf hdirty
    · exact h.clean q f hf hdirty
  · by_cases hp : p = 0
    · obtain ⟨f, f', hf, ho, hpin, hdata⟩ := hheader hp
      obtain ⟨f₀, h₀, hf₀, -, hh, hcount⟩ := h.header
      obtain rfl := Option.some.inj (hf.symm.trans hf₀)
      refine ⟨f', h₀, ?_, hpin, hdata.trans hh, hcount⟩
      rw [hframes, if_pos hp.symm]
      exact ho
    · obtain ⟨f₀, h₀, hf₀, hfacts⟩ := h.header
      refine ⟨f₀, h₀, ?_, hfacts⟩
      rw [hframes, if_neg fun heq => hp heq.symm]
      exact hf₀
  · intro f h₀ hf hh q hq
    rw [hbelow]
    rw [hframes] at hf
    split at hf
    · rename_i heq
      obtain ⟨f₁, f', hf₁, ho, -, hdata⟩ := hheader heq.symm
      obtain rfl := Option.some.inj (ho.symm.trans hf)
      exact h.present f₁ h₀ hf₁ (hdata.symm.trans hh) q hq
    · exact h.present f h₀ hf hh q hq

/-- The content of the other pages, and of the page of the frame. -/
theorem Replaces.same {o : Option (Frame D)} (hframes : Replaces s s' p o)
    (hdblwr : s'.dblwr = s.dblwr) (hfiles : s'.files = s.files)
    (hcontent : ∀ c, s.content cfg p = some c → shown o (s.below cfg p) = some c) :
    Same cfg s s' := by
  intro q c hc
  unfold content
  rw [hframes, below_congr cfg hdblwr hfiles]
  split
  · rename_i heq
    subst heq
    exact hcontent c hc
  · exact hc

/-- Pinning a frame changes no content. -/
theorem Layered.get (h : Layered cfg s) (hf : s.frame p = some f) :
    Layered cfg (s.get f).2 ∧ Same cfg s (s.get f).2 := by
  obtain ⟨-, rfl⟩ := frame_some hf
  have hframes := get_replaces s f
  refine ⟨h.replace rfl rfl (get_nodup h.nodup) hframes ?_ ?_, hframes.same rfl rfl ?_⟩
  · intro g hg hdirty
    obtain rfl := Option.some.inj hg
    exact h.clean _ f hf hdirty
  · intro hp
    exact ⟨f, _, hp ▸ hf, rfl, Nat.succ_pos _, rfl⟩
  · intro c hc
    rw [content_of_frame hf] at hc
    exact hc

/-- A frame that is not dirty goes. -/
theorem Layered.free (h : Layered cfg s) (hf : s.frame f.pageNum = some f) (hdirty : f.dirty = false)
    (hp : f.pageNum ≠ 0) : Layered cfg (s.free f) ∧ Same cfg s (s.free f) := by
  have hframes := free_replaces s f
  refine ⟨h.replace rfl rfl (free_nodup h.nodup) hframes nofun fun heq => absurd heq hp,
    hframes.same rfl rfl ?_⟩
  intro c hc
  rw [content_of_frame hf] at hc
  exact (h.clean _ f hf hdirty).trans hc

/-- The frames are as before, and what is below stays. -/
theorem Layered.stays (h : Layered cfg s) (htidy : Tidy s'.dblwr)
    (hnodup : (s'.frames.map Frame.pageNum).Nodup) (hframes : ∀ q, s'.frame q = s.frame q)
    (hbelow : ∀ q x, s.below cfg q = some x → s'.below cfg q = some x) :
    Layered cfg s' ∧ Same cfg s s' := by
  have hmap : ∀ q c, (s.below cfg q).map Page.content = some c →
      (s'.below cfg q).map Page.content = some c := by
    intro q c hc
    obtain ⟨x, hx, rfl⟩ := Option.map_eq_some_iff.mp hc
    rw [hbelow q x hx]
    rfl
  refine ⟨⟨htidy, hnodup, ?_, ?_, ?_⟩, ?_⟩
  · intro q f hf hdirty
    rw [hframes] at hf
    exact hmap q _ (h.clean q f hf hdirty)
  · rw [hframes]
    exact h.header
  · intro f h₀ hf hh q hq
    rw [hframes] at hf
    obtain ⟨x, hx⟩ := Option.isSome_iff_exists.mp (h.present f h₀ hf hh q hq)
    rw [hbelow q x hx]
    rfl
  · intro q c hc
    unfold content at hc ⊢
    rw [hframes]
    cases hf : s.frame q with
    | some f =>
      rw [hf] at hc
      exact hc
    | none =>
      rw [hf] at hc
      exact hmap q c hc

/-- The double write buffer changes, and what is stored stays. -/
theorem Layered.writeDown (h : Layered cfg s)
    {out : DiskDoubleWriteBuffer (PageData D) × List (Write (PageData D))} (htidy : Tidy out.1)
    (hstays : Stays s.dblwr s.files out.1 (afterWrites (Files.write cfg.fmt) s.files out.2)) :
    Layered cfg (s.writeDown cfg out) ∧ Same cfg s (s.writeDown cfg out) :=
  h.stays htidy h.nodup (fun _ => rfl) fun _ x hx => hstays _ x hx

/-- **`flush_page_internal`.** -/
theorem flushPageInternal_spec (cfg : PoolConfig D) (t : Traversal (PageData D)) (htidy : Tidy s.dblwr)
    (hf : (s.frame f.pageNum).isSome) :
    ∃ f', (s.flushPageInternal cfg f t).1 = f' ∧ f'.pageNum = f.pageNum ∧ f'.dirty = false ∧
      f'.pinCount = f.pinCount ∧ f'.page.content = f.page.content ∧
      Replaces s (s.flushPageInternal cfg f t).2 f.pageNum (some f') ∧
      Tidy (s.flushPageInternal cfg f t).2.dblwr ∧
      ((s.flushPageInternal cfg f t).2.below cfg f.pageNum).map Page.content =
        some f.page.content ∧
      ∀ q ≠ f.pageNum, ∀ x, s.below cfg q = some x →
        (s.flushPageInternal cfg f t).2.below cfg q = some x := by
  obtain ⟨htidy', hpage, hothers⟩ := htidy.addPage cfg.fmt s.files cfg.maxPages
    (key cfg f.pageNum) { f.page with checkSum := cfg.fmt.crc32 f.page.data } t
  refine ⟨_, rfl, rfl, rfl, rfl, rfl, ?_, htidy', ?_, ?_⟩
  · exact setFrame_replaces (s := s.writeDown cfg _) hf
  · exact congrArg (Option.map Page.content) hpage
  · exact fun q hq x hx => hothers _ (fun heq => hq (key_inj heq)) x hx

/-- A frame whose page is stored below it as well. -/
theorem Layered.install (h : Layered cfg s) (htidy : Tidy s'.dblwr)
    (hnodup : (s'.frames.map Frame.pageNum).Nodup) (hframes : Replaces s s' p (some f))
    (hbelow : (s'.below cfg p).map Page.content = some f.page.content)
    (hothers : ∀ q ≠ p, ∀ x, s.below cfg q = some x → s'.below cfg q = some x)
    (hheader : p = 0 → ∃ f₀, s.frame 0 = some f₀ ∧ 0 < f.pinCount ∧ f.page.data = f₀.page.data) :
    Layered cfg s' ∧ s'.content cfg p = some f.page.content ∧
      ∀ q ≠ p, ∀ c, s.content cfg q = some c → s'.content cfg q = some c := by
  -- what lies below the other frames is read as before
  have hmap : ∀ q ≠ p, ∀ c, (s.below cfg q).map Page.content = some c →
      (s'.below cfg q).map Page.content = some c := by
    intro q hq c hc
    obtain ⟨x, hx, rfl⟩ := Option.map_eq_some_iff.mp hc
    rw [hothers q hq x hx]
    rfl
  have hpage := hframes p
  rw [if_pos rfl] at hpage
  -- the frames that are clean
  refine ⟨⟨htidy, hnodup, ?_, ?_, ?_⟩, content_of_frame hpage, ?_⟩
  · intro q g hg hdirty
    rw [hframes] at hg
    split at hg
    · rename_i hq
      obtain rfl := Option.some.inj hg
      rw [hq]
      exact hbelow
    · rename_i hq
      exact hmap q hq _ (h.clean q g hg hdirty)
  -- the frame of the header is still pinned
  · obtain ⟨f₀, h₀, hf₀, hpin, hh, hcount⟩ := h.header
    by_cases hzero : p = 0
    · obtain ⟨f₁, hf₁, hpin', hdata⟩ := hheader hzero
      obtain rfl := Option.some.inj (hf₁.symm.trans hf₀)
      exact ⟨f, h₀, hzero ▸ hpage, hpin', hdata.trans hh, hcount⟩
    · refine ⟨f₀, h₀, ?_, hpin, hh, hcount⟩
      rw [hframes, if_neg fun heq => hzero heq.symm]
      exact hf₀
  -- every page the header counts is below the frames
  · intro g h₀ hg hh q hq
    have hold : (s.below cfg q).isSome := by
      rw [hframes] at hg
      split at hg
      · rename_i hzero
        obtain ⟨f₁, hf₁, -, hdata⟩ := hheader hzero.symm
        obtain rfl := Option.some.inj hg
        exact h.present f₁ h₀ hf₁ (hdata.symm.trans hh) q hq
      · exact h.present g h₀ hg hh q hq
    by_cases hqp : q = p
    · rw [hqp]
      obtain ⟨x, hx, -⟩ := Option.map_eq_some_iff.mp hbelow
      rw [hx]
      rfl
    · obtain ⟨x, hx⟩ := Option.isSome_iff_exists.mp hold
      rw [hothers q hqp x hx]
      rfl
  -- the other pages are read back as they were
  · intro q hq c hc
    unfold content at hc ⊢
    rw [hframes, if_neg hq]
    cases hg : s.frame q with
    | some g =>
      rw [hg] at hc
      exact hc
    | none =>
      rw [hg] at hc
      exact hmap q hq c hc

/-- A page that is flushed has the same content, and its frame is clean. -/
theorem Layered.flush (h : Layered cfg s) (hf : s.frame f.pageNum = some f) :
    ∃ f', (s.flushPageInternal cfg f t).1 = f' ∧ f'.pageNum = f.pageNum ∧ f'.dirty = false ∧
      f'.pinCount = f.pinCount ∧ Layered cfg (s.flushPageInternal cfg f t).2 ∧
      Replaces s (s.flushPageInternal cfg f t).2 f.pageNum (some f') ∧
      Same cfg s (s.flushPageInternal cfg f t).2 := by
  obtain ⟨f', heq, hnum, hdirty, hpin, hpage, hframes, htidy, hbelow, hothers⟩ :=
    flushPageInternal_spec cfg t h.tidy (Option.isSome_iff_exists.mpr ⟨f, hf⟩)
  obtain ⟨h', hcontent, hcontents⟩ := h.install htidy
    (setFrame_nodup (s := s.writeDown cfg _) h.nodup) hframes (hbelow.trans (congrArg some hpage.symm))
    hothers fun hzero => by
      obtain ⟨f₀, -, hf₀, hpin₀, -⟩ := h.header
      rw [hzero] at hf
      obtain rfl := Option.some.inj (hf.symm.trans hf₀)
      exact ⟨f, hf, hpin ▸ hpin₀, congrArg Prod.snd hpage⟩
  refine ⟨f', heq, hnum, hdirty, hpin, h', hframes, fun q c hc => ?_⟩
  by_cases hq : q = f.pageNum
  · subst hq
    rw [content_of_frame hf] at hc
    rw [hcontent, hpage]
    exact hc
  · exact hcontents q hq c hc

/-- A frame is written down if it is dirty, and goes. -/
theorem Layered.drop (h : Layered cfg s) (hf : s.frame f.pageNum = some f) (hp : f.pageNum ≠ 0)
    (hs' : s' = if f.dirty then (s.flushPageInternal cfg f t).2.free (s.flushPageInternal cfg f t).1
      else s.free f) :
    Layered cfg s' ∧ Same cfg s s' ∧ Replaces s s' f.pageNum none ∧ s'.frees ≠ [] := by
  cases hdirty : f.dirty with
  | true =>
    obtain ⟨f', heq, hnum, hdirty', -, h', hframes, hsame⟩ := h.flush (t := t) hf
    rw [hdirty, if_pos rfl, heq] at hs'
    subst hs'
    have hf' : (s.flushPageInternal cfg f t).2.frame f'.pageNum = some f' := by
      rw [hframes, if_pos hnum]
    obtain ⟨h'', hsame'⟩ := h'.free hf' hdirty' (by rw [hnum]; exact hp)
    refine ⟨h'', hsame.trans hsame', ?_, ?_⟩
    · intro q
      rw [free_replaces, hnum, hframes]
      split <;> rfl
    · exact List.append_ne_nil_of_right_ne_nil _ (List.cons_ne_nil _ _)
  | false =>
    rw [hdirty, if_neg nofun] at hs'
    subst hs'
    obtain ⟨h', hsame⟩ := h.free hf hdirty hp
    exact ⟨h', hsame, free_replaces s f,
      List.append_ne_nil_of_right_ne_nil _ (List.cons_ne_nil _ _)⟩

/-- **`purge_frames`.** -/
theorem Layered.evict (h : Layered cfg s) (hrun : s.evict cfg t = some s') :
    Layered cfg s' ∧ Same cfg s s' ∧ (∀ q, s.frame q = none → s'.frame q = none) ∧ s'.frees ≠ [] := by
  unfold DiskBufferPool.evict at hrun
  cases hvictim : s.victim with
  | none =>
    rw [hvictim] at hrun
    cases hrun
  | some f =>
    rw [hvictim] at hrun
    have hpin := List.find?_some hvictim
    replace hpin : f.pinCount = 0 := of_decide_eq_true hpin
    have hmem : f ∈ s.frames := List.mem_reverse.mp (List.mem_of_find?_eq_some hvictim)
    have hf := frame_of_mem h.nodup hmem
    -- the header frame is pinned
    have hzero : f.pageNum ≠ 0 := by
      intro hzero
      obtain ⟨f₀, -, hf₀, hpin₀, -⟩ := h.header
      rw [hzero] at hf
      obtain rfl := Option.some.inj (hf.symm.trans hf₀)
      omega
    have hs' : s' = if f.dirty then (s.flushPageInternal cfg f t).2.free
        (s.flushPageInternal cfg f t).1 else s.free f := by
      dsimp only at hrun
      split at hrun
      · rename_i hd
        rw [if_pos hd]
        exact (Option.some.inj hrun).symm
      · rename_i hd
        rw [if_neg hd]
        exact (Option.some.inj hrun).symm
    obtain ⟨h', hsame, hframes, hfrees⟩ := h.drop hf hzero hs'
    refine ⟨h', hsame, fun q hq => ?_, hfrees⟩
    rw [hframes]
    split
    · rfl
    · exact hq

/-- **`allocate_frame`** for a page that is in no frame. -/
theorem Layered.allocateFrame (h : Layered cfg s) (hp : s.frame p = none)
    (hrun : s.allocateFrame cfg p t = .ok (f, s')) :
    ∃ s₁, Layered cfg s₁ ∧ Same cfg s s₁ ∧ s₁.frame p = none ∧ Replaces s₁ s' p (some f) ∧
      (s'.frames.map Frame.pageNum).Nodup ∧ f.pageNum = p ∧ f.pinCount = 1 ∧ s'.dblwr = s₁.dblwr ∧
      s'.files = s₁.files := by
  unfold DiskBufferPool.allocateFrame at hrun
  rw [hp] at hrun
  dsimp only at hrun
  cases halloc : s.alloc p with
  | some out =>
    rw [halloc] at hrun
    obtain rfl := Except.ok.inj hrun
    exact ⟨s, h, .refl s, hp, alloc_some halloc hp h.nodup⟩
  | none =>
    rw [halloc] at hrun
    dsimp only at hrun
    cases hevict : s.evict cfg t with
    | none =>
      rw [hevict] at hrun
      cases hrun
    | some s₁ =>
      rw [hevict] at hrun
      dsimp only at hrun
      obtain ⟨h₁, hsame, hnone, -⟩ := h.evict hevict
      cases halloc₁ : s₁.alloc p with
      | none =>
        rw [halloc₁] at hrun
        cases hrun
      | some out =>
        rw [halloc₁] at hrun
        obtain rfl := Except.ok.inj hrun
        exact ⟨s₁, h₁, hsame, hnone p hp, alloc_some halloc₁ (hnone p hp) h₁.nodup⟩

/-- There is no frame for a page, and there will be none before one is unpinned. -/
def Stuck (s : DiskBufferPool D) (p : Nat) : Prop :=
  s.frame p = none ∧ s.frees = [] ∧ ∀ f ∈ s.frames, f.pinCount ≠ 0

/-- No frame can be had only if all of them are pinned, or the page is not readable. -/
theorem Layered.allocateFrame_error (h : Layered cfg s) {e : BufferFault}
    (hrun : s.allocateFrame cfg p t = .error e) : Stuck s p := by
  unfold DiskBufferPool.allocateFrame at hrun
  cases hp : s.frame p with
  | some f =>
    rw [hp] at hrun
    cases hrun
  | none =>
    rw [hp] at hrun
    dsimp only at hrun
    cases halloc : s.alloc p with
    | some out =>
      rw [halloc] at hrun
      cases hrun
    | none =>
      rw [halloc] at hrun
      dsimp only at hrun
      have hfrees : s.frees = [] := by
        unfold alloc at halloc
        split at halloc
        · assumption
        · cases halloc
      cases hevict : s.evict cfg t with
      | none =>
        refine ⟨hp, hfrees, fun f hf hpin => ?_⟩
        unfold DiskBufferPool.evict at hevict
        cases hvictim : s.victim with
        | none =>
          have := List.find?_eq_none.mp hvictim f (List.mem_reverse.mpr hf)
          exact this (decide_eq_true hpin)
        | some g =>
          rw [hvictim] at hevict
          dsimp only at hevict
          split at hevict <;> cases hevict
      | some s₁ =>
        -- eviction gives a frame back
        rw [hevict] at hrun
        dsimp only at hrun
        obtain ⟨-, -, -, hne⟩ := h.evict hevict
        cases hf₁ : s₁.frees with
        | nil => exact absurd hf₁ hne
        | cons g frees =>
          unfold alloc at hrun
          rw [hf₁] at hrun
          cases hrun

end Layers

end DiskBufferPool

end Miniob.Buffer
