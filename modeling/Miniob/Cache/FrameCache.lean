/-
  The frames of all buffer pools, and what has happened to them (`flush_page_internal`, `purge_frame`,
  `allocate_frame` and the loops over all pages in src/observer/storage/buffer/disk_buffer_pool.cpp).

  * Frames come out of the free list as they went in: a dirty flag that is left is that of the next page.
  * Along with the manager runs what has happened to each frame since its page came into it, and what had
    happened to each page that was written.
  * Reading or writing a page may fail.  A failing attempt of `allocate_frame` to purge a frame leaves
    everything as it is, and it tries again.
  * `Accounted` is the invariant within an operation: every pin is on a list, what is dirty was modified, and
    all frames but one have been loaded.

  Left out: the content of the disk, the log, and latches.
-/
import Miniob.Cache.FrameManager

namespace Miniob.Cache

open Miniob.Common Miniob.Storage

variable {D : Type}

/-! ## Operations on frames -/

/-- What has happened to a frame since its page came into it. -/
structure Since where
  /-- The page was read, or set to zeros. -/
  loaded : Bool
  modified : Bool
  deriving DecidableEq

structure FrameCache (D : Type) where
  manager : BPFrameManager D
  since : Nat → Since
  written : List (FrameId × Since)

namespace FrameCache

variable (c : FrameCache D)

/-- `flush_page_internal`.  When the page cannot be written it stays dirty. -/
def flushPage (a : Nat) (writes : Bool) : RC × FrameCache D :=
  let f := c.manager.frame a
  if writes then
    (.success, { c with
      manager := c.manager.setFrame a { f with dirty := false }
      written := c.written ++ [(f.frameId, c.since a)] })
  else (.ioerrWrite, c)

/-- A dirty frame is written, and then it is released. -/
def releaseFrame (id : FrameId) (a : Nat) (writes : Bool) : Except FrameFault (RC × FrameCache D) :=
  let (rc, c) := if (c.manager.frame a).dirty then c.flushPage a writes else (.success, c)
  if rc = .success then do
    let manager ← c.manager.freeInternal id a
    return (.success, { c with manager })
  else .ok (rc, c)

/-- `purge_frame`. -/
def purgeFrame (id : FrameId) (a : Nat) (writes : Bool) : Except FrameFault (RC × FrameCache D) :=
  if (c.manager.frame a).pinCount ≠ 1 then .ok (.lockedUnlock, c) else c.releaseFrame id a writes

/-- `purge_frames` with one frame that can be written. -/
def evict : Except FrameFault (FrameCache D) :=
  match c.manager.victim with
  | none => .error .noVictim
  | some (_, a) => do
    let c := { c with manager := c.manager.pin a }
    let (_, c) ← c.releaseFrame (c.manager.frame a).frameId a true
    return c

/-- `BPFrameManager::get`. -/
def get (id : FrameId) : Option (Nat × FrameCache D) :=
  (c.manager.get id).map fun out => (out.1, { c with manager := out.2 })

/-- `BPFrameManager::alloc`. -/
def alloc (id : FrameId) : Except FrameFault (Option Nat × FrameCache D) := do
  let isNew := (c.manager.find id).isNone
  let (frame, manager) ← c.manager.alloc id
  match frame with
  | some a =>
    let since := if isNew then Function.update c.since a ⟨false, false⟩ else c.since
    return (some a, { c with manager, since })
  | none => return (none, c)

/-- `allocate_frame`. -/
def allocateFrame (id : FrameId) : Except FrameFault (Nat × FrameCache D) := do
  match ← c.alloc id with
  | (some a, c) => return (a, c)
  | (none, c) =>
    let c ← c.evict
    match ← c.alloc id with
    | (some a, c) => return (a, c)
    | (none, _) => .error .noVictim

/-- `load_page`. -/
def loadPage (a : Nat) (page : Option D) : RC × FrameCache D :=
  match page with
  | some page =>
    (.success, { c with
      manager := c.manager.setFrame a { c.manager.frame a with page }
      since := Function.update c.since a { c.since a with loaded := true } })
  | none => (.ioerrRead, c)

def markDirty (a : Nat) : FrameCache D :=
  { c with
    manager := c.manager.setFrame a { c.manager.frame a with dirty := true }
    since := Function.update c.since a { c.since a with modified := true } }

/-- Write to a frame, and `mark_dirty`. -/
def modify (a : Nat) (page : D) : FrameCache D :=
  { c with manager := c.manager.setFrame a { c.manager.frame a with page } }.markDirty a

/-- `clear_page`. -/
def clearPage (a : Nat) (zeros : D) : FrameCache D :=
  { c with
    manager := c.manager.setFrame a { c.manager.frame a with page := zeros }
    since := Function.update c.since a ⟨true, true⟩ }

def unpin (a : Nat) : Except FrameFault (FrameCache D) := do
  let manager ← c.manager.unpin a
  return { c with manager }

/-- The loop of `purge_all_pages`. -/
def purgeFrames (bufferPoolId : Int) (writes : Nat → Bool) :
    List Nat → FrameCache D → Except FrameFault (FrameCache D)
  | [], c => .ok c
  | a :: as, c => do
    let (_, c) ← c.purgeFrame ⟨bufferPoolId, (c.manager.frame a).frameId.pageNum⟩ a (writes a)
    purgeFrames bufferPoolId writes as c

/-- The loop of `flush_all_pages`. -/
def flushFrames (writes : Nat → Bool) : List Nat → FrameCache D → Except FrameFault (RC × FrameCache D)
  | [], c => .ok (.success, c)
  | a :: as, c => do
    let (rc, c) := c.flushPage a (writes a)
    let c ← c.unpin a
    if rc = .success then flushFrames writes as c else return (rc, c)

/-- The loop of `check_all_pages_unpinned`. -/
def unpinFrames : List Nat → FrameCache D → Except FrameFault (FrameCache D)
  | [], c => .ok c
  | a :: as, c => do
    let c ← c.unpin a
    unpinFrames as c

/-- `find_list`. -/
def findList (bufferPoolId : Int) : List Nat × FrameCache D :=
  ((c.manager.findList bufferPoolId).1, { c with manager := (c.manager.findList bufferPoolId).2 })

end FrameCache

/-! ## The accounts of the frames -/

/-- The invariant within an operation: the pins are those of a list, and one frame may be on the way to be
    loaded. -/
structure Accounted (n : Nat) (c : FrameCache D) (pins : List Nat) (loading : Option Nat) : Prop where
  tidy : c.manager.Tidy n
  /-- The pins are those of the list. -/
  pins : ∀ a, (c.manager.frame a).pinCount = pins.count a
  /-- A free frame is clean. -/
  free : ∀ a ∈ c.manager.frees, (c.manager.frame a).dirty = false
  /-- A dirty frame was modified since it was loaded. -/
  dirty : ∀ a, (c.manager.frame a).dirty = true → (c.since a).modified = true ∧ loading ≠ some a
  /-- Only the frame on the way has not been loaded. -/
  loaded : ∀ id a, (id, a) ∈ c.manager.frames → loading ≠ some a → (c.since a).loaded = true
  /-- A frame is written back only after it was loaded. -/
  written : ∀ w ∈ c.written, w.2.loaded = true

/-- The frames with these pins stay with their pages. -/
def Keeps (pins : List Nat) (c c' : FrameCache D) : Prop :=
  ∀ id, ∀ a ∈ pins, (id, a) ∈ c.manager.frames → (id, a) ∈ c'.manager.frames

theorem Keeps.refl (pins : List Nat) (c : FrameCache D) : Keeps pins c c := fun _ _ _ h => h

theorem Keeps.trans {pins : List Nat} {c c' c'' : FrameCache D} (h : Keeps pins c c')
    (h' : Keeps pins c' c'') : Keeps pins c c'' := fun id a ha hid => h' id a ha (h id a ha hid)

/-- A frame has been released, and those with the pins are as before. -/
structure Released (n : Nat) (pins : List Nat) (c c' : FrameCache D) : Prop where
  accounted : Accounted n c' pins none
  keeps : Keeps pins c c'
  /-- No frame has come in. -/
  less : ∀ e ∈ c'.manager.frames, e ∈ c.manager.frames
  /-- The pinned frames are untouched. -/
  others : ∀ b ∈ pins, c'.manager.frame b = c.manager.frame b

namespace Accounted

open BPFrameManager

variable {n : Nat} {c c' : FrameCache D} {pins pins' : List Nat} {loading : Option Nat} {id : FrameId}
  {a : Nat}

/-- One frame is changed in its place. -/
theorem setFrame (h : Accounted n c pins loading) {f : Frame D} {since : Since} {written : List (FrameId × Since)}
    {loading' : Option Nat} (hid : f.frameId = (c.manager.frame a).frameId)
    (hfree : a ∈ c.manager.frees → f.pinCount = 0 ∧ f.dirty = false)
    (hpins : f.pinCount = pins'.count a) (hothers : ∀ b, b ≠ a → pins'.count b = pins.count b)
    (hdirty : f.dirty = true → since.modified = true ∧ loading' ≠ some a)
    (hloaded : ∀ id, (id, a) ∈ c.manager.frames → loading' ≠ some a → since.loaded = true)
    (hloading : ∀ b, b ≠ a → (loading' = some b ↔ loading = some b))
    (hwritten : ∀ w ∈ written, w.2.loaded = true) :
    Accounted n ⟨c.manager.setFrame a f, Function.update c.since a since, written⟩ pins' loading' where
  tidy := h.tidy.setFrame hid fun ha => (hfree ha).1
  pins := by
    -- the frame `a` is what is said of it, and the others are as they were
    intro b
    by_cases hb : b = a
    · rw [hb, frame_setFrame, hpins]
    · rw [frame_setFrame_of_ne f hb, hothers b hb]
      exact h.pins b
  free := by
    intro b hmem
    by_cases hb : b = a
    · rw [hb] at hmem ⊢
      rw [frame_setFrame]
      exact (hfree hmem).2
    · rw [frame_setFrame_of_ne f hb]
      exact h.free b hmem
  dirty := by
    intro b hd
    show (Function.update c.since a since b).modified = true ∧ loading' ≠ some b
    by_cases hb : b = a
    · rw [hb, frame_setFrame] at hd
      rw [hb, Function.update_self]
      exact hdirty hd
    · rw [frame_setFrame_of_ne f hb] at hd
      rw [Function.update_of_ne hb, ne_eq, hloading b hb]
      exact h.dirty b hd
  loaded := by
    intro id b hmem hl
    show (Function.update c.since a since b).loaded = true
    by_cases hb : b = a
    · rw [hb] at hmem hl ⊢
      rw [Function.update_self]
      exact hloaded id hmem hl
    · rw [ne_eq, hloading b hb] at hl
      rw [Function.update_of_ne hb]
      exact h.loaded id b hmem hl
  written := hwritten

/-- One frame is changed, and what has happened to it stays the same. -/
theorem setFlags (h : Accounted n c pins loading) {f : Frame D} {written : List (FrameId × Since)}
    (hid : f.frameId = (c.manager.frame a).frameId)
    (hfree : a ∈ c.manager.frees → f.pinCount = 0) (hpins : f.pinCount = pins'.count a)
    (hothers : ∀ b, b ≠ a → pins'.count b = pins.count b)
    (hdirty : f.dirty = true → (c.manager.frame a).dirty = true)
    (hwritten : ∀ w ∈ written, w.2.loaded = true) :
    Accounted n ⟨c.manager.setFrame a f, c.since, written⟩ pins' loading := by
  have hclean : a ∈ c.manager.frees → f.dirty = false := fun ha =>
    Bool.eq_false_iff.mpr fun hd => Bool.eq_false_iff.mp (h.free a ha) (hdirty hd)
  have hset := h.setFrame hid (fun ha => ⟨hfree ha, hclean ha⟩) hpins hothers
    (fun hd => h.dirty a (hdirty hd)) (fun id hmem hl => h.loaded id a hmem hl) (fun _ _ => Iff.rfl) hwritten
  rw [Function.update_eq_self] at hset
  exact hset

/-- A frame that is there is pinned once more. -/
theorem pin (h : Accounted n c pins loading) (hid : (id, a) ∈ c.manager.frames) :
    Accounted n { c with manager := c.manager.pin a } (a :: pins) loading := by
  refine h.setFlags rfl (fun hfree => absurd hfree (h.tidy.not_free hid)) ?_ (fun b hb => ?_)
    (fun hd => hd) h.written
  · rw [List.count_cons_self]
    exact congrArg (· + 1) (h.pins a)
  · exact List.count_cons_of_ne (Ne.symm hb)

/-- Using a frame changes no pin. -/
theorem touch (h : Accounted n c pins loading) (hid : (id, a) ∈ c.manager.frames) :
    Accounted n { c with manager := c.manager.touch id a } pins loading where
  tidy := h.tidy.touch hid
  pins := h.pins
  free := h.free
  dirty := h.dirty
  loaded := fun id' b hb => h.loaded id' b ((mem_touch h.tidy hid _).mp hb)
  written := h.written

/-- A look for a page. -/
theorem get (h : Accounted n c pins loading) (heq : c.get id = some (a, c')) :
    (id, a) ∈ c.manager.frames ∧ (∀ e, e ∈ c'.manager.frames ↔ e ∈ c.manager.frames) ∧
      (c'.manager.frame a).dirty = (c.manager.frame a).dirty ∧ Accounted n c' (a :: pins) loading := by
  unfold FrameCache.get at heq
  cases hfind : c.manager.find id with
  | none =>
    rw [get_eq_none.mpr (find_eq_none.mp hfind)] at heq
    cases heq
  | some b =>
    have hid := (find_eq_some h.tidy).mp hfind
    rw [(get_of_mem h.tidy hid).1] at heq
    obtain ⟨rfl, rfl⟩ := Prod.mk.inj (Option.some.inj heq)
    have hmem := mem_touch h.tidy hid
    have hdirty : (((c.manager.touch id b).pin b).frame b).dirty = (c.manager.frame b).dirty := by
      rw [frame_pin]
      rfl
    exact ⟨hid, hmem, hdirty, (h.touch hid).pin ((hmem _).mpr hid)⟩

theorem get_eq_none (h : c.get id = none) (a : Nat) : (id, a) ∉ c.manager.frames :=
  BPFrameManager.get_eq_none.mp (Option.map_eq_none_iff.mp h) a

/-- One of the pins is given back. -/
theorem unpin (h : Accounted n c (a :: pins) loading) :
    ∃ c', c.unpin a = .ok c' ∧ c'.manager.frames = c.manager.frames ∧ Accounted n c' pins loading := by
  have hpins := h.pins a
  rw [List.count_cons_self] at hpins
  have heq : c.manager.unpin a = .ok (c.manager.setFrame a
      { c.manager.frame a with pinCount := (c.manager.frame a).pinCount - 1 }) := if_pos (by omega)
  refine ⟨_, bind_ok _ heq, rfl, h.setFlags rfl (fun hfree => ?_) ?_ (fun b hb => ?_) (fun hd => hd)
    h.written⟩
  · have := (h.tidy.free a hfree).1
    omega
  · show (c.manager.frame a).pinCount - 1 = _
    omega
  · exact (List.count_cons_of_ne (Ne.symm hb)).symm

/-- A page is written, or it cannot be. -/
theorem flushPage (h : Accounted n c pins loading) (hid : (id, a) ∈ c.manager.frames)
    (hl : loading ≠ some a) (writes : Bool) : Accounted n (c.flushPage a writes).2 pins loading := by
  unfold FrameCache.flushPage
  cases writes with
  | false => exact h
  | true =>
    refine h.setFlags rfl (fun hfree => absurd hfree (h.tidy.not_free hid)) (h.pins a) (fun _ _ => rfl)
      (fun hd => Bool.noConfusion hd) fun w hw => ?_
    rcases List.mem_append.mp hw with hw | hw
    · exact h.written w hw
    · obtain rfl := List.mem_singleton.mp hw
      exact h.loaded id a hid hl

/-- A frame with one pin is released. -/
theorem release (h : Accounted n c (a :: pins) loading) (hid : (id, a) ∈ c.manager.frames) (ha : a ∉ pins)
    (hl : loading = none ∨ loading = some a) (hclean : (c.manager.frame a).dirty = false) :
    c.manager.freeInternal id a = .ok (c.manager.release id a) ∧
      Released n pins c { c with manager := c.manager.release id a } := by
  -- the last pin is that of the caller
  have hcount : pins.count a = 0 := List.count_eq_zero.mpr ha
  have hpin : (c.manager.frame a).pinCount = 1 := by
    rw [h.pins a, List.count_cons_self, hcount]
  have hframe : ∀ b, b ≠ a → (c.manager.release id a).frame b = c.manager.frame b := fun b hb =>
    Function.update_of_ne hb ..
  have hself : (c.manager.release id a).frame a
      = { c.manager.frame a with
          frameId := { (c.manager.frame a).frameId with pageNum := -1 }, pinCount := 0 } :=
    Function.update_self ..
  have hother : ∀ b ∈ pins, b ≠ a := by
    rintro b hb rfl
    exact ha hb
  refine ⟨freeInternal_ok h.tidy hid hpin, ?_, fun id' b hb hmem => ?_, fun e he => ?_, fun b hb => ?_⟩
  -- the frame is free now, with no pins and not dirty
  · exact {
      tidy := h.tidy.release hid
      pins := by
        intro b
        by_cases hb : b = a
        · rw [hb, hself, hcount]
        · rw [hframe b hb, h.pins b, List.count_cons_of_ne (Ne.symm hb)]
      free := by
        intro b hb
        by_cases hba : b = a
        · rw [hba, hself]
          exact hclean
        · rw [hframe b hba]
          rcases List.mem_append.mp hb with hb | hb
          · exact h.free b hb
          · exact absurd (List.mem_singleton.mp hb) hba
      dirty := by
        intro b hd
        refine ⟨?_, (Option.some_ne_none b).symm⟩
        by_cases hba : b = a
        · rw [hba, hself] at hd
          rw [hclean] at hd
          cases hd
        · rw [hframe b hba] at hd
          exact (h.dirty b hd).1
      loaded := by
        intro id' b hb _
        obtain ⟨hb, hba⟩ := (mem_release h.tidy hid id' b).mp hb
        refine h.loaded id' b hb ?_
        rcases hl with hl | hl
        · rw [hl]
          exact (Option.some_ne_none b).symm
        · rw [hl]
          exact fun heq => hba (Option.some.inj heq).symm
      written := h.written }
  -- pages with a pin are still there
  · exact (mem_release h.tidy hid id' b).mpr ⟨hmem, hother b hb⟩
  · exact List.mem_of_mem_filter he
  · exact hframe b (hother b hb)

/-- A frame with one pin is written if it is dirty, and released. -/
theorem releaseFrame (h : Accounted n c (a :: pins) loading) (hid : (id, a) ∈ c.manager.frames)
    (ha : a ∉ pins) (hl : loading = none ∨ loading = some a) {writes : Bool}
    (hw : (c.manager.frame a).dirty = true → writes = true) :
    ∃ c', c.releaseFrame id a writes = .ok (.success, c') ∧ Released n pins c c' := by
  unfold FrameCache.releaseFrame
  cases hd : (c.manager.frame a).dirty with
  | false =>
    obtain ⟨heq, hreleased⟩ := h.release hid ha hl hd
    refine ⟨_, ?_, hreleased⟩
    show c.manager.freeInternal id a >>= _ = _
    rw [heq]
    rfl
  | true =>
    have hnot : loading ≠ some a := (h.dirty a hd).2
    have hflush := h.flushPage hid hnot writes
    obtain rfl := hw hd
    have hclean : ((c.flushPage a true).2.manager.frame a).dirty = false := by
      show ((c.manager.setFrame a _).frame a).dirty = false
      rw [frame_setFrame]
    obtain ⟨heq, hacc, hkeeps, hless, hothers⟩ := hflush.release hid ha hl hclean
    refine ⟨_, ?_, hacc, hkeeps, hless, fun b hb => (hothers b hb).trans (frame_setFrame_of_ne _ ?_)⟩
    rotate_left
    · rintro rfl
      exact ha hb
    show (c.flushPage a true).2.manager.freeInternal id a >>= _ = _
    rw [heq]
    rfl

/-- `purge_frame` of a frame nobody else has pinned. -/
theorem purgeFrame (h : Accounted n c (a :: pins) loading) (hid : (id, a) ∈ c.manager.frames)
    (ha : a ∉ pins) (hl : loading = none ∨ loading = some a) {writes : Bool}
    (hw : (c.manager.frame a).dirty = true → writes = true) :
    ∃ c', c.purgeFrame id a writes = .ok (.success, c') ∧ Released n pins c c' := by
  have hpin : (c.manager.frame a).pinCount = 1 := by
    rw [h.pins a, List.count_cons_self, List.count_eq_zero.mpr ha]
  unfold FrameCache.purgeFrame
  rw [if_neg (not_not_intro hpin)]
  exact h.releaseFrame hid ha hl hw

/-- An eviction takes a frame without pins. -/
theorem evict (h : Accounted n c pins none) :
    c.evict = .error .noVictim ∨ ∃ c', c.evict = .ok c' ∧ Released n pins c c' := by
  unfold FrameCache.evict
  cases hv : c.manager.victim with
  | none => exact Or.inl rfl
  | some e =>
    obtain ⟨id, a⟩ := e
    obtain ⟨hid, hpin⟩ := victim_spec hv
    have ha : a ∉ pins := List.count_eq_zero.mp ((h.pins a).symm.trans hpin)
    have hown : ((c.manager.pin a).frame a).frameId = id := (h.pin hid).tidy.own id a hid
    obtain ⟨c', heq, hacc, hkeeps, hless, hothers⟩ :=
      (h.pin hid).releaseFrame hid ha (Or.inl rfl) fun _ => rfl
    have hothers' : ∀ b ∈ pins, c'.manager.frame b = c.manager.frame b := fun b hb =>
      (hothers b hb).trans (frame_setFrame_of_ne _ fun hba => ha (hba ▸ hb))
    refine Or.inr ⟨c', ?_, hacc, hkeeps, hless, hothers'⟩
    show (FrameCache.releaseFrame { c with manager := c.manager.pin a }
      ((c.manager.pin a).frame a).frameId a true >>= _) = _
    rw [hown, heq]
    rfl

/-- A frame has been allocated for a page.  If it was free, it is to be loaded. -/
structure Taken (n : Nat) (pins : List Nat) (id : FrameId) (c : FrameCache D) (a : Nat) (c' : FrameCache D) :
    Prop where
  mem : (id, a) ∈ c'.manager.frames
  keeps : Keeps pins c c'
  accounted : Accounted n c' (a :: pins) none ∨ a ∉ pins ∧ Accounted n c' (a :: pins) (some a)
  fresh : (∀ b, (id, b) ∉ c.manager.frames) → a ∉ pins ∧ Accounted n c' (a :: pins) (some a)

/-- A free frame is taken for a page. -/
theorem place (h : Accounted n c pins none) {frees : List Nat} (hid : ∀ b, (id, b) ∉ c.manager.frames)
    (hfrees : c.manager.frees = a :: frees) :
    Taken n pins id c a { c with
      manager := c.manager.place id a frees, since := Function.update c.since a ⟨false, false⟩ } := by
  -- a frame that is free has no pins and no page
  have hmem : a ∈ c.manager.frees := by
    rw [hfrees]
    exact List.mem_cons_self
  obtain ⟨hpin, hnot⟩ := h.tidy.free a hmem
  have hcount : pins.count a = 0 := (h.pins a).symm.trans hpin
  have hframe : ∀ b, b ≠ a → (c.manager.place id a frees).frame b = c.manager.frame b := fun b hb =>
    Function.update_of_ne hb ..
  have hself : (c.manager.place id a frees).frame a
      = { c.manager.frame a with frameId := id, pinCount := 1 } := Function.update_self ..
  have hacc : Accounted n { c with
      manager := c.manager.place id a frees, since := Function.update c.since a ⟨false, false⟩ }
      (a :: pins) (some a) := {
    tidy := h.tidy.place hfrees hid
    pins := by
      intro b
      by_cases hb : b = a
      · rw [hb, hself, List.count_cons_self, hcount]
      · rw [hframe b hb, h.pins b, List.count_cons_of_ne (Ne.symm hb)]
    free := by
      intro b hb
      have hnodup := h.tidy.frees
      rw [hfrees, List.nodup_cons] at hnodup
      have hba : b ≠ a := by
        rintro rfl
        exact hnodup.1 hb
      rw [hframe b hba]
      exact h.free b (by rw [hfrees]; exact List.mem_cons_of_mem a hb)
    dirty := by
      intro b hd
      by_cases hb : b = a
      · rw [hb, hself] at hd
        rw [h.free a hmem] at hd
        cases hd
      · rw [hframe b hb] at hd
        refine ⟨?_, fun heq => hb (Option.some.inj heq).symm⟩
        show (Function.update c.since a _ b).modified = true
        rw [Function.update_of_ne hb]
        exact (h.dirty b hd).1
    loaded := by
      intro id' b hb hl
      have hba : b ≠ a := fun hba => hl (congrArg some hba.symm)
      show (Function.update c.since a _ b).loaded = true
      rw [Function.update_of_ne hba]
      rcases List.mem_cons.mp hb with heq | hb
      · exact absurd (Prod.mk.inj heq).2 hba
      · exact h.loaded id' b hb (Option.some_ne_none b).symm
    written := h.written }
  have hfresh := And.intro (List.count_eq_zero.mp hcount) hacc
  exact ⟨List.mem_cons_self, fun _ _ _ hmem => List.mem_cons_of_mem _ hmem, Or.inr hfresh, fun _ => hfresh⟩

/-- A frame is taken, or there is none. -/
theorem alloc (h : Accounted n c pins none) (id : FrameId) :
    (∃ a c', c.alloc id = .ok (some a, c') ∧ Taken n pins id c a c') ∨ c.alloc id = .ok (none, c) := by
  unfold FrameCache.alloc
  rcases alloc_spec h.tidy id with ⟨a, hid, heq⟩ | ⟨a, frees, hid, hfrees, heq⟩ | ⟨-, -, heq⟩
  · refine Or.inl ⟨a, { c with manager := (c.manager.touch id a).pin a }, ?_, ?_⟩
    · rw [heq, (find_eq_some h.tidy).mpr hid]
      rfl
    · have hmem := mem_touch h.tidy hid
      exact ⟨(hmem _).mpr hid, fun _ _ _ hb => (hmem _).mpr hb,
        Or.inl ((h.touch hid).pin ((hmem _).mpr hid)), fun hnone => absurd hid (hnone a)⟩
  · refine Or.inl ⟨a, _, ?_, h.place hid hfrees⟩
    rw [heq, find_eq_none.mpr hid]
    rfl
  · refine Or.inr ?_
    rw [heq]
    rfl

/-- `allocate_frame` gets a frame, if there is one to be had. -/
theorem allocateFrame (h : Accounted n c pins none) (id : FrameId) :
    c.allocateFrame id = .error .noVictim ∨
      ∃ a c', c.allocateFrame id = .ok (a, c') ∧ Taken n pins id c a c' := by
  unfold FrameCache.allocateFrame
  rcases h.alloc id with ⟨a, c', heq, htaken⟩ | heq
  · rw [heq]
    exact Or.inr ⟨a, c', rfl, htaken⟩
  · rw [heq]
    show (c.evict >>= _) = _ ∨ ∃ a c', (c.evict >>= _) = _ ∧ _
    rcases h.evict with hevict | ⟨c₁, hevict, hreleased⟩
    · rw [hevict]
      exact Or.inl rfl
    · rw [hevict]
      show (c₁.alloc id >>= _) = _ ∨ ∃ a c', (c₁.alloc id >>= _) = _ ∧ _
      rcases hreleased.accounted.alloc id with ⟨a, c', heq, htaken⟩ | heq
      · rw [heq]
        refine Or.inr ⟨a, c', rfl, htaken.mem, hreleased.keeps.trans htaken.keeps, htaken.accounted,
          fun hnone => htaken.fresh fun b hb => hnone b (hreleased.less _ hb)⟩
      · rw [heq]
        exact Or.inl rfl

/-- Only the numbers of the pins count. -/
theorem perm (h : Accounted n c pins loading) (hperm : pins.Perm pins') : Accounted n c pins' loading where
  tidy := h.tidy
  pins := fun a => (h.pins a).trans (hperm.count_eq a)
  free := h.free
  dirty := h.dirty
  loaded := h.loaded
  written := h.written

theorem not_free (h : Accounted n c pins loading) (ha : a ∈ pins) : a ∉ c.manager.frees := by
  intro hfree
  have hcount : 0 < pins.count a := List.count_pos_iff.mpr ha
  have := h.pins a
  have := (h.tidy.free a hfree).1
  omega

theorem loadPage (h : Accounted n c (a :: pins) (some a)) (page : D) :
    Accounted n (c.loadPage a (some page)).2 (a :: pins) none := by
  refine h.setFrame rfl (fun hfree => absurd hfree (h.not_free List.mem_cons_self)) (h.pins a)
    (fun _ _ => rfl) (fun hd => absurd rfl (h.dirty a hd).2) (fun _ _ _ => rfl) (fun b hb => ?_) h.written
  exact ⟨fun heq => (Option.some_ne_none b heq.symm).elim, fun heq => absurd (Option.some.inj heq).symm hb⟩

theorem markDirty (h : Accounted n c pins loading) (ha : a ∈ pins) (hl : loading ≠ some a) :
    Accounted n (c.markDirty a) pins loading :=
  h.setFrame rfl (fun hfree => absurd hfree (h.not_free ha)) (h.pins a) (fun _ _ => rfl)
    (fun _ => ⟨rfl, hl⟩) (fun id hid hl => h.loaded id a hid hl) (fun _ _ => Iff.rfl) h.written

theorem modify (h : Accounted n c pins none) (ha : a ∈ pins) (page : D) :
    Accounted n (c.modify a page) pins none := by
  have hpage : Accounted n { c with
      manager := c.manager.setFrame a { c.manager.frame a with page } } pins none :=
    h.setFlags rfl (fun hfree => absurd hfree (h.not_free ha)) (h.pins a) (fun _ _ => rfl) (fun hd => hd)
      h.written
  exact hpage.markDirty ha (Option.some_ne_none a).symm

/-- A page that is being loaded can be cleared. -/
theorem clearPage (h : Accounted n c (a :: pins) loading) (hl : loading = none ∨ loading = some a) (zeros : D) :
    Accounted n (c.clearPage a zeros) (a :: pins) none := by
  refine h.setFrame rfl (fun hfree => absurd hfree (h.not_free List.mem_cons_self)) (h.pins a)
    (fun _ _ => rfl) (fun _ => ⟨rfl, (Option.some_ne_none a).symm⟩) (fun _ _ _ => rfl) (fun b hb => ?_)
    h.written
  rcases hl with hl | hl
  · rw [hl]
  · rw [hl]
    exact ⟨fun heq => (Option.some_ne_none b heq.symm).elim, fun heq => absurd (Option.some.inj heq).symm hb⟩

/-! ## Operations on all frames of a pool -/

/-- The frames of a pool are those with its number. -/
theorem mem_ofPool {m : BPFrameManager D} {bufferPoolId : Int} :
    a ∈ m.ofPool bufferPoolId ↔ ∃ pageNum, (⟨bufferPoolId, pageNum⟩, a) ∈ m.frames := by
  unfold ofPool
  rw [List.mem_map]
  constructor
  · rintro ⟨⟨⟨_, pageNum⟩, _⟩, he, rfl⟩
    obtain ⟨hmem, hpool⟩ := List.mem_filter.mp he
    obtain rfl := of_decide_eq_true hpool
    exact ⟨pageNum, hmem⟩
  · rintro ⟨pageNum, hmem⟩
    exact ⟨_, List.mem_filter.mpr ⟨hmem, decide_eq_true rfl⟩, rfl⟩

/-- No frame is there twice. -/
theorem nodup_ofPool (h : c.manager.Tidy n) (bufferPoolId : Int) : (c.manager.ofPool bufferPoolId).Nodup := by
  have hframes : c.manager.frames.Nodup := List.Nodup.of_map _ h.keys
  refine List.Nodup.map_on (fun e he e' he' heq => ?_) (hframes.filter _)
  obtain ⟨id, b⟩ := e
  obtain ⟨id', b'⟩ := e'
  obtain rfl : b = b' := heq
  rw [h.id_unique (List.mem_of_mem_filter he) (List.mem_of_mem_filter he')]

/-- Every listed frame is pinned, and nothing else is changed. -/
theorem pinAll (as : List Nat) {c : FrameCache D} (h : Accounted n c pins loading)
    (has : ∀ a ∈ as, ∃ id, (id, a) ∈ c.manager.frames) :
    Accounted n { c with manager := as.foldl BPFrameManager.pin c.manager } (as ++ pins) loading ∧
      (as.foldl BPFrameManager.pin c.manager).frames = c.manager.frames ∧
      ∀ b, ((as.foldl BPFrameManager.pin c.manager).frame b).dirty = (c.manager.frame b).dirty := by
  induction as generalizing c pins with
  | nil => exact ⟨h, rfl, fun _ => rfl⟩
  | cons a as ih =>
    obtain ⟨id, hid⟩ := has a List.mem_cons_self
    obtain ⟨hacc, hframes, hdirty⟩ := ih (h.pin hid) fun b hb => has b (List.mem_cons_of_mem a hb)
    refine ⟨hacc.perm List.perm_middle, hframes, fun b => (hdirty b).trans ?_⟩
    show ((c.manager.pin a).frame b).dirty = _
    rw [frame_pin]

theorem findList (h : Accounted n c pins loading) (bufferPoolId : Int) :
    Accounted n (c.findList bufferPoolId).2 (c.manager.ofPool bufferPoolId ++ pins) loading ∧
      (c.findList bufferPoolId).2.manager.frames = c.manager.frames ∧
      ∀ b, ((c.findList bufferPoolId).2.manager.frame b).dirty = (c.manager.frame b).dirty :=
  h.pinAll (c.manager.ofPool bufferPoolId) fun _ ha =>
    let ⟨pageNum, hmem⟩ := mem_ofPool.mp ha
    ⟨⟨bufferPoolId, pageNum⟩, hmem⟩

/-- The loop of `purge_all_pages`. -/
theorem purgeFrames {bufferPoolId : Int} {writes : Nat → Bool} : ∀ (as : List Nat) {c : FrameCache D},
    Accounted n c (as ++ pins) none → as.Nodup →
    (∀ a ∈ as, (∃ pageNum, (⟨bufferPoolId, pageNum⟩, a) ∈ c.manager.frames) ∧ a ∉ pins ∧
      ((c.manager.frame a).dirty = true → writes a = true)) →
    ∃ c', FrameCache.purgeFrames bufferPoolId writes as c = .ok c' ∧ Accounted n c' pins none ∧
      Keeps pins c c'
  | [], c, h, _, _ => ⟨c, rfl, h, Keeps.refl pins c⟩
  | a :: as, c, h, hnodup, has => by
    obtain ⟨hnot, hnodup⟩ := List.nodup_cons.mp hnodup
    obtain ⟨⟨pageNum, hid⟩, hpins, hw⟩ := has a List.mem_cons_self
    have ha : a ∉ as ++ pins := by
      rw [List.mem_append, not_or]
      exact ⟨hnot, hpins⟩
    obtain ⟨c₁, heq, hacc, hkeeps, hless, hothers⟩ := h.purgeFrame hid ha (Or.inl rfl) hw
    obtain ⟨c', heq', hacc', hkeeps'⟩ := purgeFrames as hacc hnodup fun b hb => by
      obtain ⟨⟨pageNum, hid⟩, hpins, hw⟩ := has b (List.mem_cons_of_mem a hb)
      have hb' : b ∈ as ++ pins := List.mem_append_left pins hb
      refine ⟨⟨pageNum, hkeeps _ b hb' hid⟩, hpins, fun hd => hw ?_⟩
      rw [← hothers b hb']
      exact hd
    refine ⟨c', ?_, hacc', fun id b hb hmem => hkeeps' id b hb (hkeeps id b (List.mem_append_right as hb) hmem)⟩
    show (c.purgeFrame ⟨bufferPoolId, (c.manager.frame a).frameId.pageNum⟩ a (writes a) >>= _) = _
    rw [h.tidy.own _ a hid, heq]
    exact heq'

/-- The loop of `flush_all_pages`, if no write fails but the last. -/
theorem flushFrames {writes : Nat → Bool} : ∀ (as : List Nat) {c : FrameCache D},
    Accounted n c (as ++ pins) none → (∀ a ∈ as, ∃ id, (id, a) ∈ c.manager.frames) →
    (∀ a ∈ as.dropLast, writes a = true) →
    ∃ rc c', FrameCache.flushFrames writes as c = .ok (rc, c') ∧ Accounted n c' pins none ∧
      c'.manager.frames = c.manager.frames
  | [], c, h, _, _ => ⟨.success, c, rfl, h, rfl⟩
  -- each turn unpins a frame; a write that fails ends the loop and has to be at the last frame
  | a :: as, c, h, has, hw => by
    obtain ⟨id, hid⟩ := has a List.mem_cons_self
    have hflush := h.flushPage hid (Option.some_ne_none a).symm (writes a)
    obtain ⟨c₁, heq, hframes, hacc⟩ := hflush.unpin
    have hsame : (c.flushPage a (writes a)).2.manager.frames = c.manager.frames := by
      unfold FrameCache.flushPage
      split <;> rfl
    rw [hsame] at hframes
    have hloop : FrameCache.flushFrames writes (a :: as) c
        = if (c.flushPage a (writes a)).1 = .success then FrameCache.flushFrames writes as c₁
          else .ok ((c.flushPage a (writes a)).1, c₁) := by
      show ((c.flushPage a (writes a)).2.unpin a >>= _) = _
      rw [heq]
      rfl
    rw [hloop]
    cases hwa : writes a with
    | true =>
      obtain ⟨rc, c', heq', hacc', hframes'⟩ := flushFrames as hacc
        (fun b hb => by
          rw [hframes]
          exact has b (List.mem_cons_of_mem a hb))
        (fun b hb => by
          refine hw b ?_
          cases as with
          | nil => cases hb
          | cons a' as => exact List.mem_cons_of_mem a hb)
      exact ⟨rc, c', heq', hacc', hframes'.trans hframes⟩
    -- the last frame: its pin is given back before the loop ends
    | false =>
      have hnil : as = [] := by
        cases as with
        | nil => rfl
        | cons a' as =>
          have := hw a List.mem_cons_self
          rw [hwa] at this
          cases this
      subst hnil
      exact ⟨_, c₁, rfl, hacc, hframes⟩

/-- The loop of `check_all_pages_unpinned`. -/
theorem unpinFrames : ∀ (as : List Nat) {c : FrameCache D}, Accounted n c (as ++ pins) none →
    ∃ c', FrameCache.unpinFrames as c = .ok c' ∧ Accounted n c' pins none ∧
      c'.manager.frames = c.manager.frames
  | [], c, h => ⟨c, rfl, h, rfl⟩
  | a :: as, c, h => by
    obtain ⟨c₁, heq, hframes, hacc⟩ := h.unpin
    obtain ⟨c', heq', hacc', hframes'⟩ := unpinFrames as hacc
    refine ⟨c', ?_, hacc', hframes'.trans hframes⟩
    show (c.unpin a >>= _) = _
    rw [heq]
    exact heq'

end Accounted

end Miniob.Cache
