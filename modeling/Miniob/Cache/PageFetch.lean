/-
  Many threads fetch pages of one buffer pool (`DiskBufferPool::get_this_page`, `unpin_page` and `purge_frame`
  in src/observer/storage/buffer/disk_buffer_pool.cpp).

  * A fetch looks for a frame without `lock_`, and again with it.  Each look, each allocation, each load and
    each release of a frame is one step, and between the steps of a thread others take theirs.
  * `load_page` may fail, and leaves any bytes then.
  * A frame is seen from its allocation on, and its page is loaded after that.  Who looks for the page in
    between gets a frame with another page's bytes; and where two threads hold it, `purge_frame` leaves it.
  * `Apart` is what keeps this away.  Under it a fetch that succeeds hands out its page, and one that fails
    leaves no frame.

  Nothing writes to the pages here, so that no frame is dirty, but both purges look at the flag.  Left out:
  writes that fail and the frames of other buffer pools.
-/
import Miniob.Cache.FrameManager

namespace Miniob.Cache

open Miniob.Common Miniob.Storage

variable {T D : Type}

/-- Where a thread is in `get_this_page`. -/
inductive FetchPoint where
  | outside
  /-- The first look has found nothing, and the thread waits for `lock_`. -/
  | missed (pageNum : PageNum)
  | locked (pageNum : PageNum)
  /-- The thread has a frame, which may have been free before. -/
  | loading (pageNum : PageNum) (a : Nat) (wasFree : Bool)
  /-- The load has failed, and the thread is at the beginning of `purge_frame`. -/
  | purging (pageNum : PageNum) (a : Nat)
  /-- `purge_frame` has found that the frame may go. -/
  | freeing (pageNum : PageNum) (a : Nat)

namespace FetchPoint

/-- The page that is fetched and its frame, and if others may see the frame without the page in it. -/
def fetch : FetchPoint → Option (PageNum × Nat × Bool)
  | .loading pageNum a wasFree => some (pageNum, a, wasFree)
  | .purging pageNum a => some (pageNum, a, true)
  | .freeing pageNum a => some (pageNum, a, true)
  | _ => none

/-- The thread has `lock_`. -/
def inside : FetchPoint → Bool
  | .outside => false
  | .missed _ => false
  | _ => true

end FetchPoint

/-- What the threads share, and where each of them is in its call. -/
structure SharedPool (T D : Type) where
  manager : BPFrameManager D
  disk : PageNum → Option D
  /-- Who has `lock_`. -/
  lock : Option T
  point : T → FetchPoint
  /-- The frames that were handed out, once for each `unpin_page` that is still to come. -/
  handles : List Nat

/-- A call of `get_this_page` returns. -/
structure Returned (T : Type) where
  thread : T
  pageNum : PageNum
  result : Except RC Nat

/-- What happens next. -/
inductive FetchAction (T D : Type) where
  /-- A thread calls `get_this_page` and looks for the page. -/
  | call (t : T) (pageNum : PageNum)
  /-- The next step of a thread.  A load may break off and leave something. -/
  | next (t : T) (broken : Option D)
  | unpin (a : Nat)
  /-- `purge_frames` for any page of any pool. -/
  | evict

namespace SharedPool

variable [DecidableEq T] (poolId : Int) (s : SharedPool T D)

def moveTo (t : T) (point : FetchPoint) : SharedPool T D :=
  { s with point := Function.update s.point t point }

/-- A thread leaves `get_this_page`, and `lock_` with it. -/
def leave (t : T) : SharedPool T D := { s.moveTo t .outside with lock := none }

/-- `flush_page_internal`. -/
def flushPage (a : Nat) : SharedPool T D :=
  let f := s.manager.frame a
  { s with
    manager := s.manager.setFrame a { f with dirty := false }
    disk := Function.update s.disk f.frameId.pageNum (some f.page) }

/-- A dirty frame is written before it goes. -/
def clean (a : Nat) : SharedPool T D := if (s.manager.frame a).dirty then s.flushPage a else s

/-- What a step answers, and what it leaves. -/
abbrev Answer (T D : Type) := Option (Returned T) × SharedPool T D

/-- A call of `get_this_page`, up to the lock. -/
def call (t : T) (pageNum : PageNum) : Except FrameFault (Answer T D) :=
  match s.point t with
  | .outside =>
    match s.manager.get ⟨poolId, pageNum⟩ with
    | some (a, manager) =>
      .ok (some ⟨t, pageNum, .ok a⟩, { s with manager, handles := a :: s.handles })
    | none => .ok (none, s.moveTo t (.missed pageNum))
  | _ => .ok (none, s)

/-- An attempt of `allocate_frame`.  If there is no free frame it purges, and tries again. -/
def allocateFrame (t : T) (pageNum : PageNum) : Except FrameFault (Answer T D) :=
  match s.manager.alloc ⟨poolId, pageNum⟩ with
  | .error e => .error e
  | .ok (none, _) => .ok (none, s)
  | .ok (some a, manager) =>
    let wasFree := (s.manager.find ⟨poolId, pageNum⟩).isNone
    .ok (none, { s.moveTo t (.loading pageNum a wasFree) with manager })

/-- `load_page`, and what follows it in `get_this_page`. -/
def load (t : T) (pageNum : PageNum) (a : Nat) (broken : Option D) : Answer T D :=
  let f := s.manager.frame a
  match s.disk pageNum, broken with
  | some page, none =>
    (some ⟨t, pageNum, .ok a⟩,
      { s.leave t with
        manager := s.manager.setFrame a { f with page, frameId := { f.frameId with pageNum } }
        handles := a :: s.handles })
  | none, none => (none, s.moveTo t (.purging pageNum a))
  | _, some page =>
    (none, { s.moveTo t (.purging pageNum a) with manager := s.manager.setFrame a { f with page } })

/-- `purge_frame`, as far as to the release of the frame. -/
def purgeFrame (t : T) (pageNum : PageNum) (a : Nat) : Answer T D :=
  if (s.manager.frame a).pinCount ≠ 1 then (some ⟨t, pageNum, .error .ioerrRead⟩, s.leave t)
  else (none, (s.clean a).moveTo t (.freeing pageNum a))

def freeFrame (t : T) (pageNum : PageNum) (a : Nat) : Except FrameFault (Answer T D) := do
  let manager ← s.manager.freeInternal ⟨poolId, pageNum⟩ a
  return (some ⟨t, pageNum, .error .ioerrRead⟩, { s.leave t with manager })

/-- The next step of a thread.  Nothing happens while another one has `lock_`. -/
def next (t : T) (broken : Option D) : Except FrameFault (Answer T D) :=
  match s.point t with
  | .outside => .ok (none, s)
  | .missed pageNum =>
    match s.lock with
    | some _ => .ok (none, s)
    | none => .ok (none, { s.moveTo t (.locked pageNum) with lock := some t })
  | .locked pageNum => s.allocateFrame poolId t pageNum
  | .loading pageNum a _ => .ok (s.load t pageNum a broken)
  | .purging pageNum a => .ok (s.purgeFrame t pageNum a)
  | .freeing pageNum a => s.freeFrame poolId t pageNum a

/-- Only frames that were handed out are unpinned. -/
def unpin (a : Nat) : Except FrameFault (Answer T D) :=
  if a ∈ s.handles then do
    let manager ← s.manager.unpin a
    return (none, { s with manager, handles := s.handles.erase a })
  else .ok (none, s)

/-- `evict_frames`, by whoever needs a frame. -/
def evict : Except FrameFault (Answer T D) :=
  match s.manager.victim with
  | none => .ok (none, s)
  | some (_, a) => do
    let s := { s with manager := s.manager.pin a }.clean a
    let manager ← s.manager.freeInternal (s.manager.frame a).frameId a
    return (none, { s with manager })

/-- One action of one thread. -/
def step (s : SharedPool T D) : FetchAction T D → Except FrameFault (Answer T D)
  | .call t pageNum => s.call poolId t pageNum
  | .next t broken => s.next poolId t broken
  | .unpin a => s.unpin a
  | .evict => s.evict

/-! ## What a fetch is for -/

/-- Nothing has been fetched, and all of the `n` frames are free. -/
structure Fresh (n : Nat) (s : SharedPool T D) : Prop where
  frames : s.manager.frames = []
  frees : s.manager.frees = List.range n
  frame : ∀ a, (s.manager.frame a).dirty = false ∧ (s.manager.frame a).pinCount = 0
  lock : s.lock = none
  point : ∀ t, s.point t = .outside
  handles : s.handles = []

/-- A frame that is handed out is pinned and has the page.  Behind a failure there is none. -/
def Right (s : SharedPool T D) (r : Returned T) : Prop :=
  match r.result with
  | .ok a => (⟨poolId, r.pageNum⟩, a) ∈ s.manager.frames ∧ 0 < (s.manager.frame a).pinCount ∧
      s.disk r.pageNum = some (s.manager.frame a).page
  | .error _ => ∀ a, (⟨poolId, r.pageNum⟩, a) ∉ s.manager.frames

/-- No look is for a page that another thread is fetching into a frame that was free, or fails to fetch, and
    no load fails while others have pinned the frame. -/
def Apart (s : SharedPool T D) : FetchAction T D → Prop
  | .call _ pageNum => ∀ t a, (s.point t).fetch ≠ some (pageNum, a, true)
  | .next t broken => ∀ pageNum a wasFree, s.point t = .loading pageNum a wasFree →
      (s.disk pageNum).isSome ∧ broken.isNone ∨ (s.manager.frame a).pinCount = 1
  | _ => True

end SharedPool

/-! ## The invariant of the frames -/

/-- The pins: one for each handle, and one for the fetch that is going on. -/
def held (fetching : Option (PageNum × Nat × Bool)) (handles : List Nat) : List Nat :=
  match fetching with
  | none => handles
  | some (_, a, _) => a :: handles

/-- Every frame has its page, but for one that has not been loaded; and nobody holds that one. -/
structure Cached (poolId : Int) (n : Nat) (m : BPFrameManager D) (disk : PageNum → Option D)
    (fetching : Option (PageNum × Nat × Bool)) (handles : List Nat) : Prop where
  /-- Each frame is free or has its page. -/
  tidy : m.Tidy n
  /-- Nobody writes to a frame. -/
  clean : ∀ a, (m.frame a).dirty = false
  /-- The pins are those of the handles, and one of the call that is on. -/
  pins : ∀ a, (m.frame a).pinCount = (held fetching handles).count a
  /-- The call that is on has its frame. -/
  fetch : ∀ p a u, fetching = some (p, a, u) → (⟨poolId, p⟩, a) ∈ m.frames
  /-- A frame that is not loaded is in nobody's hands. -/
  unloaded : ∀ p a, fetching = some (p, a, true) → a ∉ handles
  /-- Every other frame has the page of the disk. -/
  content : ∀ id a, (id, a) ∈ m.frames → disk id.pageNum = some (m.frame a).page ∨
    ∃ p, fetching = some (p, a, true)

namespace Cached

open BPFrameManager

variable {poolId : Int} {n : Nat} {m : BPFrameManager D} {disk : PageNum → Option D}
  {fetching : Option (PageNum × Nat × Bool)} {handles : List Nat} {p : PageNum} {a : Nat} {u : Bool}

/-- A frame nobody is loading has its page. -/
theorem page (h : Cached poolId n m disk fetching handles) (hid : (⟨poolId, p⟩, a) ∈ m.frames)
    (hapart : ∀ a, fetching ≠ some (p, a, true)) : disk p = some (m.frame a).page := by
  rcases h.content _ a hid with hpage | ⟨p', hfetch⟩
  · exact hpage
  · have heq := h.tidy.id_unique hid (h.fetch p' a true hfetch)
    rw [(FrameId.mk.inj heq).2] at hapart
    exact absurd hfetch (hapart a)

/-- What the content and the flags come to when a frame is pinned. -/
theorem pin (h : Cached poolId n m disk fetching handles) (hid : (⟨poolId, p⟩, a) ∈ m.frames)
    {fetching' : Option (PageNum × Nat × Bool)} {handles' : List Nat}
    (hheld : ∀ b, (held fetching' handles').count b = (held fetching handles).count b + if a = b then 1 else 0)
    (hfetch : ∀ p a u, fetching' = some (p, a, u) → (⟨poolId, p⟩, a) ∈ m.frames)
    (hunloaded : ∀ p a, fetching' = some (p, a, true) → a ∉ handles')
    (hsame : ∀ p a, fetching = some (p, a, true) → fetching' = some (p, a, true)) :
    Cached poolId n ((m.touch ⟨poolId, p⟩ a).pin a) disk fetching' handles' where
  tidy := (get_of_mem h.tidy hid).2
  clean := by
    intro b
    rw [frame_pin]
    exact h.clean b
  pins := by
    intro b
    rw [frame_pin, hheld b]
    exact congrArg (· + _) (h.pins b)
  fetch := fun p' b u hf => (mem_touch h.tidy hid _).mpr (hfetch p' b u hf)
  unloaded := hunloaded
  content := by
    intro id b hb
    rw [frame_pin]
    rcases h.content id b ((mem_touch h.tidy hid _).mp hb) with hpage | ⟨p', hf⟩
    · exact Or.inl hpage
    · exact Or.inr ⟨p', hsame p' b hf⟩

/-- A look that finds a page. -/
theorem lookup (h : Cached poolId n m disk fetching handles) (hid : (⟨poolId, p⟩, a) ∈ m.frames)
    (hapart : ∀ a, fetching ≠ some (p, a, true)) :
    Cached poolId n ((m.touch ⟨poolId, p⟩ a).pin a) disk fetching (a :: handles) := by
  refine h.pin hid (fun b => ?_) h.fetch (fun p' b hf => ?_) (fun _ _ hf => hf)
  · unfold held
    split
    · rw [List.count_cons, beq_eq_decide]
      simp only [decide_eq_true_eq]
    · simp only [List.count_cons, beq_iff_eq]
      omega
  · rw [List.mem_cons, not_or]
    refine ⟨fun hba => ?_, h.unloaded p' b hf⟩
    rw [hba] at hf
    have heq := h.tidy.id_unique hid (h.fetch p' a true hf)
    rw [(FrameId.mk.inj heq).2] at hapart
    exact hapart a hf

/-- An allocation that finds a frame. -/
theorem found (h : Cached poolId n m disk none handles) (hid : (⟨poolId, p⟩, a) ∈ m.frames) :
    Cached poolId n ((m.touch ⟨poolId, p⟩ a).pin a) disk (some (p, a, false)) handles := by
  refine h.pin hid (fun b => ?_) (fun p' b u hf => ?_) (fun p' b hf => ?_) (fun p' b hf => ?_)
  · show (a :: handles).count b = handles.count b + _
    rw [List.count_cons]
    simp only [beq_iff_eq]
  · obtain ⟨rfl, rfl, -⟩ := hf
    exact hid
  · cases hf
  · cases hf

/-- An allocation that takes a free frame. -/
theorem place (h : Cached poolId n m disk none handles) {frees : List Nat}
    (hid : ∀ b, (⟨poolId, p⟩, b) ∉ m.frames) (hfrees : m.frees = a :: frees) :
    Cached poolId n (m.place ⟨poolId, p⟩ a frees) disk (some (p, a, true)) handles := by
  -- the frame was free: nobody has a handle on it
  have hfree := h.tidy.free a (by rw [hfrees]; exact List.mem_cons_self)
  have hcount : handles.count a = 0 := (h.pins a).symm.trans hfree.1
  have hframe : ∀ b, b ≠ a → (m.place ⟨poolId, p⟩ a frees).frame b = m.frame b := fun b hb =>
    Function.update_of_ne hb ..
  have hself : (m.place ⟨poolId, p⟩ a frees).frame a
      = { m.frame a with frameId := ⟨poolId, p⟩, pinCount := 1 } := Function.update_self ..
  exact {
    tidy := h.tidy.place hfrees hid
    clean := by
      intro b
      by_cases hb : b = a
      · rw [hb, hself]
        exact h.clean a
      · rw [hframe b hb]
        exact h.clean b
    pins := by
      intro b
      show _ = (a :: handles).count b
      by_cases hb : b = a
      · rw [hb, hself, List.count_cons_self, hcount]
      · rw [hframe b hb, List.count_cons_of_ne (Ne.symm hb)]
        exact h.pins b
    fetch := by
      rintro p' b u hf
      obtain ⟨rfl, rfl, -⟩ := hf
      exact List.mem_cons_self
    unloaded := by
      rintro p' b hf
      obtain ⟨rfl, rfl⟩ := hf
      exact List.count_eq_zero.mp hcount
    -- the new page is the one that is being fetched, the others have their content
    content := by
      intro id b hb
      rcases List.mem_cons.mp hb with heq | hmem
      · obtain ⟨-, rfl⟩ := Prod.mk.inj heq
        exact Or.inr ⟨p, rfl⟩
      · have hba : b ≠ a := by
          rintro rfl
          exact hfree.2 id hmem
        rw [hframe b hba]
        rcases h.content id b hmem with hpage | ⟨p', hf⟩
        · exact Or.inl hpage
        · cases hf }

/-- The fetch has pinned its frame. -/
theorem pinned (h : Cached poolId n m disk (some (p, a, u)) handles) :
    (m.frame a).pinCount = handles.count a + 1 := by
  rw [h.pins a]
  exact List.count_cons_self

/-- The frame that is fetched gets other bytes. -/
theorem setPage (h : Cached poolId n m disk (some (p, a, u)) handles) (f : Frame D)
    (hid : f.frameId = (m.frame a).frameId) (hpins : f.pinCount = (m.frame a).pinCount)
    (hclean : f.dirty = (m.frame a).dirty) {u' : Bool} (hunloaded : u' = true → a ∉ handles)
    (hpage : u' = false → disk p = some f.page) :
    Cached poolId n (m.setFrame a f) disk (some (p, a, u')) handles where
  tidy := h.tidy.setFrame hid fun hfree => absurd hfree (h.tidy.not_free (h.fetch p a u rfl))
  clean := by
    intro b
    by_cases hb : b = a
    · rw [hb, frame_setFrame, hclean]
      exact h.clean a
    · rw [frame_setFrame_of_ne f hb]
      exact h.clean b
  pins := by
    intro b
    by_cases hb : b = a
    · rw [hb, frame_setFrame, hpins]
      exact h.pins a
    · rw [frame_setFrame_of_ne f hb]
      exact h.pins b
  fetch := by
    intro p' a' u' hf
    obtain ⟨rfl, rfl, -⟩ := hf
    exact h.fetch p a u rfl
  unloaded := by
    intro p' a' hf
    obtain ⟨rfl, rfl, hu⟩ := hf
    exact hunloaded rfl
  content := by
    intro id b hb
    by_cases hba : b = a
    -- once it is loaded the frame has what the disk has
    · obtain rfl := h.tidy.id_unique (hba ▸ hb) (h.fetch p a u rfl)
      rw [hba, frame_setFrame]
      cases u' with
      | true => exact Or.inr ⟨p, rfl⟩
      | false => exact Or.inl (hpage rfl)
    · rw [frame_setFrame_of_ne f hba]
      rcases h.content id b hb with hpage | ⟨p', hf⟩
      · exact Or.inl hpage
      · obtain ⟨-, rfl, -⟩ := hf
        exact absurd rfl hba

/-- The frame is handed out. -/
theorem handOut (h : Cached poolId n m disk (some (p, a, false)) handles) :
    Cached poolId n m disk none (a :: handles) where
  tidy := h.tidy
  clean := h.clean
  pins := h.pins
  fetch := fun _ _ _ hf => (Option.some_ne_none _ hf.symm).elim
  unloaded := fun _ _ hf => (Option.some_ne_none _ hf.symm).elim
  content := by
    intro id b hb
    rcases h.content id b hb with hpage | ⟨p', hf⟩
    · exact Or.inl hpage
    · cases hf

/-- A frame is released that nobody will use. -/
theorem release (h : Cached poolId n m disk fetching handles) {id : FrameId} (hid : (id, a) ∈ m.frames)
    {fetching' : Option (PageNum × Nat × Bool)}
    (hheld : ∀ b, (held fetching' handles).count b
      = if b = a then 0 else (held fetching handles).count b)
    (hfetch : ∀ p b u, fetching' = some (p, b, u) → fetching = some (p, b, u) ∧ b ≠ a)
    (hkept : ∀ p b, b ≠ a → fetching = some (p, b, true) → fetching' = some (p, b, true)) :
    Cached poolId n (m.release id a) disk fetching' handles := by
  have hframe : ∀ b, b ≠ a → (m.release id a).frame b = m.frame b := fun b hb =>
    Function.update_of_ne hb ..
  have hself : (m.release id a).frame a
      = { m.frame a with frameId := { (m.frame a).frameId with pageNum := -1 }, pinCount := 0 } :=
    Function.update_self ..
  exact {
    tidy := h.tidy.release hid
    clean := by
      intro b
      by_cases hb : b = a
      · rw [hb, hself]
        exact h.clean a
      · rw [hframe b hb]
        exact h.clean b
    pins := by
      intro b
      rw [hheld b]
      by_cases hb : b = a
      · rw [if_pos hb, hb, hself]
      · rw [if_neg hb, hframe b hb]
        exact h.pins b
    fetch := fun p' b u hf =>
      (mem_release h.tidy hid _ b).mpr ⟨h.fetch p' b u (hfetch p' b u hf).1, (hfetch p' b u hf).2⟩
    unloaded := fun p' b hf => h.unloaded p' b (hfetch p' b true hf).1
    content := by
      intro id' b hb
      obtain ⟨hb, hba⟩ := (mem_release h.tidy hid id' b).mp hb
      rw [hframe b hba]
      rcases h.content id' b hb with hpage | ⟨p', hf⟩
      · exact Or.inl hpage
      · exact Or.inr ⟨p', hkept p' b hba hf⟩ }

/-- The end of a fetch that has failed. -/
theorem freed (h : Cached poolId n m disk (some (p, a, true)) handles) :
    m.freeInternal ⟨poolId, p⟩ a = .ok (m.release ⟨poolId, p⟩ a) ∧
      Cached poolId n (m.release ⟨poolId, p⟩ a) disk none handles := by
  have hid := h.fetch p a true rfl
  have hcount : handles.count a = 0 := List.count_eq_zero.mpr (h.unloaded p a rfl)
  have hpin : (m.frame a).pinCount = 1 := by rw [h.pinned, hcount]
  refine ⟨freeInternal_ok h.tidy hid hpin, h.release hid (fun b => ?_) (fun _ _ _ hf => ?_)
    (fun p' b hb hf => ?_)⟩
  · by_cases hb : b = a
    · rw [if_pos hb, hb]
      exact hcount
    · rw [if_neg hb]
      exact (List.count_cons_of_ne (Ne.symm hb)).symm
  · cases hf
  · obtain ⟨-, rfl, -⟩ := hf
    exact absurd rfl hb

/-- An eviction takes a frame nobody has pinned. -/
theorem evicted (h : Cached poolId n m disk fetching handles) {id : FrameId} (hid : (id, a) ∈ m.frames)
    (hpin : (m.frame a).pinCount = 0) : Cached poolId n (m.release id a) disk fetching handles := by
  have hcount : (held fetching handles).count a = 0 := (h.pins a).symm.trans hpin
  refine h.release hid (fun b => ?_) (fun p' b u hf => ⟨hf, fun hba => ?_⟩) (fun _ _ _ hf => hf)
  · by_cases hb : b = a
    · rw [if_pos hb, hb, hcount]
    · rw [if_neg hb]
  · rw [hf, hba] at hcount
    exact absurd hcount (by rw [held, List.count_cons_self]; omega)

/-- A frame is held by the fetch and by handles. -/
theorem count_held (fetching : Option (PageNum × Nat × Bool)) (handles : List Nat) (b : Nat) :
    (held fetching handles).count b = (held fetching []).count b + handles.count b := by
  cases fetching with
  | none => exact (Nat.zero_add _).symm
  | some f =>
    show (f.2.1 :: handles).count b = (f.2.1 :: []).count b + _
    rw [List.count_cons, List.count_cons, List.count_nil]
    omega

/-- `unpin_page` of a frame that was handed out. -/
theorem unpin (h : Cached poolId n m disk fetching handles) (hmem : a ∈ handles) :
    ∃ m', m.unpin a = .ok m' ∧ Cached poolId n m' disk fetching (handles.erase a) := by
  have hcount : 0 < handles.count a := List.count_pos_iff.mpr hmem
  have hpins := h.pins a
  rw [count_held] at hpins
  refine ⟨_, if_pos (by omega), ?_⟩
  exact {
    tidy := h.tidy.setFrame rfl fun hfree => by
      have := (h.tidy.free a hfree).1
      omega
    clean := by
      intro b
      by_cases hb : b = a
      · rw [hb, frame_setFrame]
        exact h.clean a
      · rw [frame_setFrame_of_ne _ hb]
        exact h.clean b
    pins := by
      intro b
      rw [count_held, List.count_erase]
      by_cases hb : b = a
      · rw [hb, frame_setFrame, if_pos (beq_self_eq_true a)]
        show (m.frame a).pinCount - 1 = _
        omega
      · rw [frame_setFrame_of_ne _ hb, if_neg (by rw [beq_iff_eq]; exact Ne.symm hb), h.pins b, count_held]
        omega
    fetch := h.fetch
    unloaded := fun p' b hf hb => h.unloaded p' b hf (List.mem_of_mem_erase hb)
    content := by
      intro id b hb
      by_cases hba : b = a
      · rw [hba] at hb ⊢
        rw [frame_setFrame]
        exact h.content id a hb
      · rw [frame_setFrame_of_ne _ hba]
        exact h.content id b hb }

end Cached

/-! ## The invariant of the threads -/

namespace SharedPool

variable {poolId : Int} {n : Nat} {s s' : SharedPool T D}

/-- What the thread is fetching that has `lock_`. -/
def fetching (s : SharedPool T D) : Option (PageNum × Nat × Bool) := s.lock.bind fun t => (s.point t).fetch

/-- The cache is as it should be, and the lock is held by the thread that is inside. -/
structure Sound (poolId : Int) (n : Nat) (s : SharedPool T D) : Prop where
  cached : Cached poolId n s.manager s.disk s.fetching s.handles
  holder : ∀ t, (s.point t).inside = true ↔ s.lock = some t

/-- At the start no frame is held. -/
theorem Fresh.sound (h : Fresh n s) : Sound poolId n s where
  cached := by
    have hfetching : s.fetching = none := by
      unfold fetching
      rw [h.lock]
      rfl
    rw [hfetching, h.handles]
    exact {
      tidy := {
        keys := by
          rw [h.frames]
          exact List.nodup_nil
        own := by
          intro id a ha
          rw [h.frames] at ha
          cases ha
        frees := by
          rw [h.frees]
          exact List.nodup_range
        free := by
          refine fun a _ => ⟨(h.frame a).2, fun id ha => ?_⟩
          rw [h.frames] at ha
          cases ha
        all := by
          intro a
          rw [h.frees, h.frames, List.mem_range]
          exact ⟨Or.inl, fun ha => ha.resolve_right fun ⟨_, hid⟩ => List.not_mem_nil hid⟩ }
      clean := fun a => (h.frame a).1
      pins := fun a => (h.frame a).2
      fetch := fun _ _ _ hf => (Option.some_ne_none _ hf.symm).elim
      unloaded := fun _ _ hf => (Option.some_ne_none _ hf.symm).elim
      content := by
        intro id a ha
        rw [h.frames] at ha
        cases ha }
  holder := by
    intro t
    rw [h.point t, h.lock]
    exact ⟨fun hin => Bool.noConfusion hin, fun hlock => (Option.some_ne_none _ hlock.symm).elim⟩

/-- A thread that fetches a page is the one that has `lock_`. -/
theorem Sound.fetching_eq (h : Sound poolId n s) {t : T} (hin : (s.point t).inside = true) :
    s.fetching = (s.point t).fetch := by
  unfold fetching
  rw [(h.holder t).mp hin]
  rfl

/-- Nothing is dirty, and so nothing is written. -/
theorem Sound.clean_eq (h : Sound poolId n s) (a : Nat) : s.clean a = s :=
  if_neg (by rw [h.cached.clean a]; exact Bool.false_ne_true)

/-- What a step has to answer and to leave. -/
def Fine (poolId : Int) (n : Nat) (out : Except FrameFault (Answer T D)) : Prop :=
  ∃ r s', out = .ok (r, s') ∧ Sound poolId n s' ∧ ∀ x ∈ r, Right poolId s' x

theorem Fine.quiet (h : Sound poolId n s') : Fine poolId n (.ok (none, s')) :=
  ⟨none, s', rfl, h, fun _ hx => (Option.not_mem_none _ hx).elim⟩

theorem Fine.returned {r : Returned T} (h : Sound poolId n s') (hr : Right poolId s' r) :
    Fine poolId n (.ok (some r, s')) :=
  ⟨some r, s', rfl, h, fun x hx => by
    obtain rfl := Option.mem_some_iff.mp hx
    exact hr⟩

/-- A frame that is there, pinned and no longer loaded is rightly handed out. -/
theorem Sound.right (h : Sound poolId n s) {t : T} {p : PageNum} {a : Nat}
    (hid : (⟨poolId, p⟩, a) ∈ s.manager.frames) (hmem : a ∈ s.handles)
    (hapart : ∀ a, s.fetching ≠ some (p, a, true)) : Right poolId s ⟨t, p, .ok a⟩ := by
  refine ⟨hid, ?_, h.cached.page hid hapart⟩
  have hcount : 0 < s.handles.count a := List.count_pos_iff.mpr hmem
  have hpins := h.cached.pins a
  rw [Cached.count_held] at hpins
  omega

/-- A handle is given back. -/
theorem Sound.unpin (h : Sound poolId n s) (a : Nat) : Fine poolId n (s.unpin a) := by
  unfold SharedPool.unpin
  by_cases hmem : a ∈ s.handles
  · obtain ⟨m, hm, hc⟩ := h.cached.unpin hmem
    rw [if_pos hmem, hm]
    exact .quiet ⟨hc, h.holder⟩
  · rw [if_neg hmem]
    exact .quiet h

/-- Frames that nobody holds are taken. -/
theorem Sound.evict (h : Sound poolId n s) : Fine poolId n s.evict := by
  unfold SharedPool.evict
  cases hv : s.manager.victim with
  | none => exact .quiet h
  | some e =>
    obtain ⟨id, a⟩ := e
    obtain ⟨hid, hpin⟩ := BPFrameManager.victim_spec hv
    have hpinned : (s.manager.pin a).Tidy n := h.cached.tidy.pin hid
    have hframe : (s.manager.pin a).frame a
        = { s.manager.frame a with pinCount := (s.manager.frame a).pinCount + 1 } :=
      BPFrameManager.frame_setFrame _
    have hclean : clean { s with manager := s.manager.pin a } a = { s with manager := s.manager.pin a } := by
      refine if_neg ?_
      show ¬ ((s.manager.pin a).frame a).dirty = true
      rw [hframe]
      show ¬ (s.manager.frame a).dirty = true
      rw [h.cached.clean a]
      exact Bool.false_ne_true
    have hfree : (s.manager.pin a).freeInternal ((s.manager.pin a).frame a).frameId a
        = .ok (s.manager.release id a) := by
      have hown : ((s.manager.pin a).frame a).frameId = id := hpinned.own id a hid
      rw [hown, BPFrameManager.freeInternal_ok hpinned hid (by rw [hframe, hpin]),
        BPFrameManager.release_pin]
    show Fine poolId n (do
      let s := clean { s with manager := s.manager.pin a } a
      let manager ← s.manager.freeInternal (s.manager.frame a).frameId a
      return (none, { s with manager }))
    rw [hclean]
    show Fine poolId n ((s.manager.pin a).freeInternal ((s.manager.pin a).frame a).frameId a >>= _)
    rw [hfree]
    exact .quiet ⟨h.cached.evicted hid hpin, h.holder⟩

variable [DecidableEq T]

/-- What a thread does that has `lock_` and keeps it. -/
theorem Sound.inside (h : Sound poolId n s) {t : T} {point : FetchPoint} {manager : BPFrameManager D}
    {handles : List Nat} (hin : (s.point t).inside = true) (hin' : point.inside = true)
    (hc : Cached poolId n manager s.disk point.fetch handles) :
    Sound poolId n { s.moveTo t point with manager, handles } := by
  have hlock : s.lock = some t := (h.holder t).mp hin
  constructor
  · have hfetching : fetching { s.moveTo t point with manager, handles } = point.fetch := by
      show (s.lock.bind fun t' => (Function.update s.point t point t').fetch) = _
      rw [hlock, Option.bind_some, Function.update_self]
    rw [hfetching]
    exact hc
  · intro t'
    show (Function.update s.point t point t').inside = true ↔ s.lock = some t'
    by_cases ht : t' = t
    · rw [ht, Function.update_self, hin', hlock]
      exact ⟨fun _ => rfl, fun _ => rfl⟩
    · rw [Function.update_of_ne ht]
      exact h.holder t'

/-- And one that leaves. -/
theorem Sound.left (h : Sound poolId n s) {t : T} {manager : BPFrameManager D} {handles : List Nat}
    (hin : (s.point t).inside = true) (hc : Cached poolId n manager s.disk none handles) :
    Sound poolId n { s.leave t with manager, handles } := by
  have hlock : s.lock = some t := (h.holder t).mp hin
  refine ⟨hc, fun t' => ?_⟩
  show (Function.update s.point t .outside t').inside = true ↔ none = some t'
  refine ⟨fun hin' => ?_, fun hnone => (Option.some_ne_none _ hnone.symm).elim⟩
  by_cases ht : t' = t
  · rw [ht, Function.update_self] at hin'
    cases hin'
  · rw [Function.update_of_ne ht, h.holder t', hlock] at hin'
    exact absurd (Option.some.inj hin').symm ht

/-- The thread waits for `lock_`. -/
theorem Sound.miss (h : Sound poolId n s) {t : T} (hout : s.point t = .outside) (pageNum : PageNum) :
    Sound poolId n (s.moveTo t (.missed pageNum)) := by
  have hlock : s.lock ≠ some t := fun hlock => by
    have := (h.holder t).mpr hlock
    rw [hout] at this
    cases this
  constructor
  · have hfetching : (s.moveTo t (.missed pageNum)).fetching = s.fetching := by
      show (s.lock.bind fun t' => (Function.update s.point t (.missed pageNum) t').fetch)
        = s.lock.bind fun t' => (s.point t').fetch
      cases hl : s.lock with
      | none => rfl
      | some t' =>
        have ht : t' ≠ t := by
          rintro rfl
          exact hlock hl
        rw [Option.bind_some, Option.bind_some, Function.update_of_ne ht]
    rw [hfetching]
    exact h.cached
  · intro t'
    show (Function.update s.point t (.missed pageNum) t').inside = true ↔ s.lock = some t'
    by_cases ht : t' = t
    · rw [ht, Function.update_self]
      exact ⟨fun hin => Bool.noConfusion hin, fun hl => absurd hl hlock⟩
    · rw [Function.update_of_ne ht]
      exact h.holder t'

/-- The thread gets `lock_`. -/
theorem Sound.enter (h : Sound poolId n s) {t : T} (hlock : s.lock = none) (pageNum : PageNum) :
    Sound poolId n { s.moveTo t (.locked pageNum) with lock := some t } := by
  have hnone : s.fetching = none := by
    unfold fetching
    rw [hlock]
    rfl
  constructor
  · have hfetching : fetching { s.moveTo t (.locked pageNum) with lock := some t } = none := by
      show (Function.update s.point t (.locked pageNum) t).fetch = none
      rw [Function.update_self]
      rfl
    rw [hfetching, ← hnone]
    exact h.cached
  · intro t'
    show (Function.update s.point t (.locked pageNum) t').inside = true ↔ some t = some t'
    by_cases ht : t' = t
    · rw [ht, Function.update_self]
      exact ⟨fun _ => rfl, fun _ => rfl⟩
    · rw [Function.update_of_ne ht, h.holder t', hlock]
      exact ⟨fun hl => (Option.some_ne_none _ hl.symm).elim, fun hl => absurd (Option.some.inj hl).symm ht⟩

/-! ## One step -/

/-- A page whose frame is loaded is handed out at once. -/
theorem Sound.call (h : Sound poolId n s) {t : T} {p : PageNum}
    (ha : ∀ t a, (s.point t).fetch ≠ some (p, a, true)) : Fine poolId n (s.call poolId t p) := by
  have hapart : ∀ a, s.fetching ≠ some (p, a, true) := by
    intro a hf
    obtain ⟨t', -, hf⟩ := Option.bind_eq_some_iff.mp hf
    exact ha t' a hf
  unfold SharedPool.call
  cases hpoint : s.point t with
  | outside =>
    cases hfind : s.manager.find ⟨poolId, p⟩ with
    | none =>
      rw [BPFrameManager.get_eq_none.mpr (BPFrameManager.find_eq_none.mp hfind)]
      exact .quiet (h.miss hpoint p)
    | some a =>
      have hid := (BPFrameManager.find_eq_some h.cached.tidy).mp hfind
      rw [(BPFrameManager.get_of_mem h.cached.tidy hid).1]
      have hs : Sound poolId n { s with
          manager := (s.manager.touch ⟨poolId, p⟩ a).pin a, handles := a :: s.handles } :=
        ⟨h.cached.lookup hid hapart, h.holder⟩
      exact .returned hs (hs.right List.mem_cons_self List.mem_cons_self hapart)
  | missed _ => exact .quiet h
  | locked _ => exact .quiet h
  | loading _ _ _ => exact .quiet h
  | purging _ _ => exact .quiet h
  | freeing _ _ => exact .quiet h

/-- The frame is under its page before the page is in it. -/
theorem Sound.allocateFrame (h : Sound poolId n s) {t : T} {p : PageNum} (hpoint : s.point t = .locked p) :
    Fine poolId n (s.allocateFrame poolId t p) := by
  have hin : (s.point t).inside = true := by
    rw [hpoint]
    rfl
  have hc := h.cached
  rw [h.fetching_eq hin, hpoint] at hc
  unfold SharedPool.allocateFrame
  rcases BPFrameManager.alloc_spec hc.tidy ⟨poolId, p⟩ with ⟨a, hid, heq⟩ | ⟨a, frees, hid, hfrees, heq⟩ |
    ⟨-, -, heq⟩
  · rw [heq, (BPFrameManager.find_eq_some hc.tidy).mpr hid]
    exact .quiet (h.inside hin rfl (hc.found hid))
  · rw [heq, BPFrameManager.find_eq_none.mpr hid]
    exact .quiet (h.inside hin rfl (hc.place hid hfrees))
  · rw [heq]
    exact .quiet h

/-- The page comes into its frame, and the lock is given back. -/
theorem Sound.load (h : Sound poolId n s) {t : T} {p : PageNum} {a : Nat} {u : Bool} {broken : Option D}
    (hpoint : s.point t = .loading p a u)
    (ha : (s.disk p).isSome ∧ broken.isNone ∨ (s.manager.frame a).pinCount = 1) :
    Fine poolId n (.ok (s.load t p a broken)) := by
  have hin : (s.point t).inside = true := by
    rw [hpoint]
    rfl
  have hc := h.cached
  rw [h.fetching_eq hin, hpoint] at hc
  have hid := hc.fetch p a u rfl
  have hframe := hc.tidy.own _ a hid
  -- if the read fails, nobody but this thread has the frame
  have hunused : ¬ ((s.disk p).isSome ∧ broken.isNone) → a ∉ s.handles := by
    intro hfails
    have hpin := hc.pinned
    rw [ha.resolve_left hfails] at hpin
    exact List.count_eq_zero.mp (by omega)
  have hbroken : ∀ page, ¬ ((s.disk p).isSome ∧ broken.isNone) → Sound poolId n
      { s.moveTo t (.purging p a) with
        manager := s.manager.setFrame a { s.manager.frame a with page } } := by
    intro page hfails
    have hset : Cached poolId n (s.manager.setFrame a { s.manager.frame a with page }) s.disk
        (some (p, a, true)) s.handles :=
      hc.setPage { s.manager.frame a with page } rfl rfl rfl (fun _ => hunused hfails)
        fun hu => Bool.noConfusion hu
    exact h.inside hin rfl hset
  unfold SharedPool.load
  cases hdisk : s.disk p with
  | some page =>
    -- the page is read, or some junk of it
    cases broken with
    | some junk => exact .quiet (hbroken junk (fun hb => Bool.noConfusion hb.2))
    | none =>
      have hs : Cached poolId n (s.manager.setFrame a { s.manager.frame a with
          page, frameId := { (s.manager.frame a).frameId with pageNum := p } }) s.disk
          (some (p, a, false)) s.handles := by
        refine hc.setPage { s.manager.frame a with
          page, frameId := { (s.manager.frame a).frameId with pageNum := p } } ?_ rfl rfl
          (fun hu => Bool.noConfusion hu) fun _ => hdisk
        rw [hframe]
      have hleft := h.left hin hs.handOut
      refine .returned hleft (hleft.right hid List.mem_cons_self fun a' hf => ?_)
      exact (Option.some_ne_none _ hf.symm).elim
  -- there is no such page on the disk
  | none =>
    have hfails : ¬ ((s.disk p).isSome ∧ broken.isNone) := by
      rw [hdisk]
      exact fun hb => Bool.noConfusion hb.1
    cases broken with
    | some junk => exact .quiet (hbroken junk hfails)
    | none =>
      have hsame := hbroken (s.manager.frame a).page hfails
      have heq : s.manager.setFrame a { s.manager.frame a with page := (s.manager.frame a).page }
          = s.manager := by
        unfold BPFrameManager.setFrame
        rw [Function.update_eq_self]
      rw [heq] at hsame
      exact .quiet hsame

theorem Sound.purgeFrame (h : Sound poolId n s) {t : T} {p : PageNum} {a : Nat}
    (hpoint : s.point t = .purging p a) : Fine poolId n (.ok (s.purgeFrame t p a)) := by
  have hin : (s.point t).inside = true := by
    rw [hpoint]
    rfl
  have hc := h.cached
  rw [h.fetching_eq hin, hpoint] at hc
  have hpin : (s.manager.frame a).pinCount = 1 := by
    rw [hc.pinned, List.count_eq_zero.mpr (hc.unloaded p a rfl)]
  unfold SharedPool.purgeFrame
  rw [if_neg (not_not_intro hpin), h.clean_eq]
  exact .quiet (h.inside hin rfl hc)

theorem Sound.freeFrame (h : Sound poolId n s) {t : T} {p : PageNum} {a : Nat}
    (hpoint : s.point t = .freeing p a) : Fine poolId n (s.freeFrame poolId t p a) := by
  have hin : (s.point t).inside = true := by
    rw [hpoint]
    rfl
  have hc := h.cached
  rw [h.fetching_eq hin, hpoint] at hc
  obtain ⟨hfree, hc'⟩ := hc.freed
  unfold SharedPool.freeFrame
  rw [hfree]
  refine .returned (h.left hin hc') fun b hb => ?_
  obtain ⟨hb, hba⟩ := (BPFrameManager.mem_release hc.tidy (hc.fetch p a true rfl) _ b).mp hb
  exact hba (hc.tidy.frame_unique hb (hc.fetch p a true rfl))

theorem Sound.next (h : Sound poolId n s) {t : T} {broken : Option D}
    (ha : Apart s (.next t broken)) : Fine poolId n (s.next poolId t broken) := by
  unfold SharedPool.next
  cases hpoint : s.point t with
  | outside => exact .quiet h
  | missed p =>
    cases hlock : s.lock with
    | some _ =>
      refine .quiet ?_
      exact h
    | none => exact .quiet (h.enter hlock p)
  | locked p => exact h.allocateFrame hpoint
  | loading p a u => exact h.load hpoint (ha p a u hpoint)
  | purging p a => exact h.purgeFrame hpoint
  | freeing p a => exact h.freeFrame hpoint

theorem Sound.step (h : Sound poolId n s) {act : FetchAction T D} (ha : Apart s act) :
    Fine poolId n (step poolId s act) := by
  cases act with
  | call t p => exact h.call ha
  | next t broken => exact h.next ha
  | unpin a => exact h.unpin a
  | evict => exact h.evict

/-- **Pages are fetched by many threads.**  If no step of the run so far and of the one to come brings two
    fetches of a page together, no assertion fires, a fetch that succeeds hands out a pinned frame that has
    the page, and one that fails leaves no frame. -/
theorem concurrent_fetch {s₀ : SharedPool T D} (hs₀ : Fresh n s₀)
    (h : Reachable (step poolId) Apart s₀ s) {act : FetchAction T D} (ha : Apart s act) :
    ∃ r s', step poolId s act = .ok (r, s') ∧ ∀ x ∈ r, Right poolId s' x := by
  have hsound : Sound poolId n s := by
    refine h.invariant (hs₀.sound) fun s act r s' hs ha heq => ?_
    obtain ⟨r', s'', heq', hs', -⟩ := hs.step ha
    rw [heq] at heq'
    obtain ⟨-, rfl⟩ := Prod.mk.inj (Except.ok.inj heq')
    exact hs'
  obtain ⟨r, s', heq, -, hright⟩ := hsound.step ha
  exact ⟨r, s', heq, hright⟩

/-- A pool with one frame and one page on disk. -/
def oneFrame : SharedPool Nat Nat where
  manager := ⟨fun _ => ⟨⟨-1, -1⟩, 0, false, 0⟩, [], [0]⟩
  disk pageNum := if pageNum = 5 then some 7 else none
  lock := none
  point _ := .outside
  handles := []

/-- Two threads look for the same page.  One loads it, and the other one, which has waited, loads it again. -/
theorem concurrent_fetch_two :
    ∃ s r s', runOps (step 0) oneFrame [.call 1 5, .call 2 5, .next 1 none, .next 2 none, .next 1 none,
        .next 1 none, .next 2 none, .next 2 none]
      = .ok ([none, none, none, none, none, some ⟨1, 5, .ok 0⟩, none, none], s) ∧
      step 0 s (.next 2 none) = .ok (some r, s') ∧ Right 0 s' r := by
  have hs₀ : Fresh 1 oneFrame := ⟨rfl, rfl, fun _ => ⟨rfl, rfl⟩, rfl, fun _ => rfl, rfl⟩
  have hinit : Reachable (step 0) Apart oneFrame oneFrame := .init
  have hmissed : ∀ t, (Function.update oneFrame.point 1 (.missed 5) t).fetch = none := fun t => by
    by_cases ht : t = 1
    · rw [ht, Function.update_self]
      rfl
    · rw [Function.update_of_ne ht]
      rfl
  have hcalled := (hinit.next (.call 1 5) (fun _ _ h => by cases h) rfl).next (.call 2 5)
    (fun t a h => by cases (hmissed t).symm.trans h) rfl
  -- the first thread, with an attempt of the second one to get the lock
  have hloaded := (((hcalled.next (.next 1 none) (fun _ _ _ h => by cases h) rfl).next (.next 2 none)
    (fun _ _ _ h => by cases h) rfl).next (.next 1 none) (fun _ _ _ h => by cases h) rfl).next (.next 1 none)
    (fun _ _ _ h => by cases h; exact Or.inl ⟨rfl, rfl⟩) rfl
  have hreach := (hloaded.next (.next 2 none) (fun _ _ _ h => by cases h) rfl).next (.next 2 none)
    (fun _ _ _ h => by cases h) rfl
  obtain ⟨r, s', heq, hright⟩ := concurrent_fetch hs₀ hreach
    (show Apart _ (.next 2 none) from fun p a u h => by cases h; exact Or.inl ⟨rfl, rfl⟩)
  cases heq
  exact ⟨_, _, _, rfl, rfl, hright _ rfl⟩

/-- A second fetch gets the frame before the page is in it.  If the load then fails the frame stays. -/
theorem overlapping_fetches :
    (∃ r s, runOps (step 0) oneFrame [.call 1 5, .next 1 none, .next 1 none, .call 2 5]
      = .ok ([none, none, none, some r], s) ∧ ¬ Right 0 s r) ∧
    ∃ r r' s, runOps (step 0) oneFrame [.call 1 5, .next 1 none, .next 1 none, .call 2 5,
        .next 1 (some 3), .next 1 none]
      = .ok ([none, none, none, some r', none, some r], s) ∧ ¬ Right 0 s r := by
  refine ⟨⟨_, _, rfl, fun h => ?_⟩, _, _, _, rfl, fun h => ?_⟩
  · exact absurd h.2.2 (by decide)
  · exact h 0 List.mem_cons_self

end SharedPool

end Miniob.Cache
