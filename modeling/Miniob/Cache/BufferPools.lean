/-
  Several buffer pools that share their frames (`DiskBufferPool` in
  src/observer/storage/buffer/disk_buffer_pool.cpp).

  * A handle is a frame that was handed out and is still to be unpinned.
  * `Admitted` says when the frames stay in order.  Otherwise `dispose_page` leaves a dirty flag for the next
    page in the frame, and the operations that purge or flush keep pins they have taken.

  Left out: opening and closing files.
-/
import Miniob.Buffer.BufferPool
import Miniob.Cache.FrameCache

namespace Miniob.Cache

open Miniob.Common Miniob.Storage
open Miniob.Buffer (BPFileHeader maxPageNum)

variable {D : Type}

/-! ## Buffer pools -/

structure DiskBufferPool where
  id : Int
  /-- What `file_header_` points to. -/
  fileHeader : BPFileHeader
  /-- `hdr_frame_`. -/
  hdrFrame : Nat

structure BufferPools (D : Type) where
  cache : FrameCache D
  pools : List DiskBufferPool
  /-- The frames that were handed out, once for each `unpin_page` that is still to come. -/
  handles : List Nat

/-- The calls, with what reading and writing pages comes to. -/
inductive PoolCall (D : Type) where
  | getThisPage (pageNum : PageNum) (read : Option D) (writes : Bool)
  | allocatePage (read : Option D) (zeros : D) (writes : Bool)
  | disposePage (pageNum : Nat)
  | purgePage (pageNum : PageNum) (writes : Bool)
  | purgeAllPages (writes : Nat → Bool)
  | flushAllPages (writes : Nat → Bool)
  | checkAllPagesUnpinned

inductive PoolAction (D : Type) where
  | call (poolId : Int) (call : PoolCall D)
  | unpinPage (a : Nat)
  | modify (a : Nat) (page : D)

namespace BufferPools

variable (s : BufferPools D)

def headers : List Nat := s.pools.map DiskBufferPool.hdrFrame

/-- All pins: the pools have pinned their headers. -/
def pins : List Nat := s.headers ++ s.handles

/-- A return code, and the frame that is handed out. -/
abbrev Answer (D : Type) := (RC × Option Nat) × BufferPools D

def handOut (cache : FrameCache D) (a : Nat) : Answer D :=
  ((.success, some a), { s with cache, handles := a :: s.handles })

/-- Change the header of a pool and mark its frame dirty. -/
def setHeader (pool : DiskBufferPool) (fileHeader : BPFileHeader) : BufferPools D :=
  { s with
    cache := s.cache.markDirty pool.hdrFrame
    pools := s.pools.map fun q => if q.id = pool.id then { q with fileHeader } else q }

/-- `get_this_page`: the frame of the page, which is read if it was not there. -/
def getThisPage (pool : DiskBufferPool) (pageNum : PageNum) (read : Option D) (writes : Bool) :
    Except FrameFault (Answer D) :=
  match s.cache.get ⟨pool.id, pageNum⟩ with
  | some (a, cache) => .ok (s.handOut cache a)
  | none => do
    let (a, cache) ← s.cache.allocateFrame ⟨pool.id, pageNum⟩
    let (rc, cache) := cache.loadPage a read
    if rc = .success then return s.handOut cache a
    else do
      let (_, cache) ← cache.purgeFrame ⟨pool.id, pageNum⟩ a writes
      return ((rc, none), { s with cache })

/-- The part of `allocate_page` that makes the file longer. -/
def extendFile (pool : DiskBufferPool) (zeros : D) (writes : Bool) : Except FrameFault (Answer D) := do
  let pageNum := pool.fileHeader.pageCount
  let (a, cache) ← s.cache.allocateFrame ⟨pool.id, pageNum⟩
  let s := { s with cache }.setHeader pool (pool.fileHeader.allocate pageNum)
  -- a failing write is ignored
  return s.handOut ((s.cache.clearPage a zeros).flushPage a writes).2 a

/-- `allocate_page`: a page that is free in the file, or a new one at its end. -/
def allocatePage (pool : DiskBufferPool) (read : Option D) (zeros : D) (writes : Bool) :
    Except FrameFault (Answer D) :=
  match pool.fileHeader.freePage with
  | some pageNum =>
    (s.setHeader pool (pool.fileHeader.allocate pageNum)).getThisPage pool pageNum read writes
  | none =>
    if pool.fileHeader.pageCount ≥ maxPageNum then .ok ((.bufferpoolNobuf, none), s)
    else s.extendFile pool zeros writes

/-- `dispose_page`: the frame is purged, and the page is free. -/
def disposePage (pool : DiskBufferPool) (pageNum : Nat) : Except FrameFault (Answer D) :=
  if pageNum = 0 then .ok ((.internal, none), s)
  else
    match s.cache.get ⟨pool.id, pageNum⟩ with
    | some (a, cache) => do
      let manager ← cache.manager.freeInternal ⟨pool.id, pageNum⟩ a
      let s := { s with cache := { cache with manager } }
      return ((.success, none), s.setHeader pool (pool.fileHeader.dispose pageNum))
    | none => .ok ((.success, none), s.setHeader pool (pool.fileHeader.dispose pageNum))

def purgePage (pool : DiskBufferPool) (pageNum : PageNum) (writes : Bool) :
    Except FrameFault (Answer D) :=
  match s.cache.get ⟨pool.id, pageNum⟩ with
  | some (a, cache) => do
    let (rc, cache) ← cache.purgeFrame ⟨pool.id, pageNum⟩ a writes
    return ((rc, none), { s with cache })
  | none => .ok ((.success, none), s)

def purgeAllPages (pool : DiskBufferPool) (writes : Nat → Bool) : Except FrameFault (Answer D) := do
  let (used, cache) := s.cache.findList pool.id
  let cache ← FrameCache.purgeFrames pool.id writes used cache
  return ((.success, none), { s with cache })

def flushAllPages (pool : DiskBufferPool) (writes : Nat → Bool) : Except FrameFault (Answer D) := do
  let (used, cache) := s.cache.findList pool.id
  let (rc, cache) ← FrameCache.flushFrames writes used cache
  return ((rc, none), { s with cache })

def checkAllPagesUnpinned (pool : DiskBufferPool) : Except FrameFault (Answer D) := do
  let (frames, cache) := s.cache.findList pool.id
  let cache ← FrameCache.unpinFrames frames cache
  return ((.success, none), { s with cache })

/-- The calls of a buffer pool. -/
def callPool (pool : DiskBufferPool) : PoolCall D → Except FrameFault (Answer D)
  | .getThisPage pageNum read writes => s.getThisPage pool pageNum read writes
  | .allocatePage read zeros writes => s.allocatePage pool read zeros writes
  | .disposePage pageNum => s.disposePage pool pageNum
  | .purgePage pageNum writes => s.purgePage pool pageNum writes
  | .purgeAllPages writes => s.purgeAllPages pool writes
  | .flushAllPages writes => s.flushAllPages pool writes
  | .checkAllPagesUnpinned => s.checkAllPagesUnpinned pool

/-- Only frames that were handed out are unpinned and written to. -/
def step (s : BufferPools D) : PoolAction D → Except FrameFault (Answer D)
  | .unpinPage a =>
    if a ∈ s.handles then do
      let cache ← s.cache.unpin a
      return ((.success, none), { s with cache, handles := s.handles.erase a })
    else .ok ((.invalidArgument, none), s)
  | .modify a page =>
    if a ∈ s.handles then .ok ((.success, none), { s with cache := s.cache.modify a page })
    else .ok ((.invalidArgument, none), s)
  | .call poolId call =>
    match s.pools.find? fun pool => pool.id = poolId with
    | none => .ok ((.invalidArgument, none), s)
    | some pool => s.callPool pool call

/-! ## What the frames are for -/

/-- Each page is in one frame, each frame is free or has its page, the pins are those of the handles, and
    only what was modified is dirty. -/
structure Orderly (n : Nat) (s : BufferPools D) : Prop where
  /-- A page is in one frame. -/
  one : ∀ id a b, (id, a) ∈ s.cache.manager.frames → (id, b) ∈ s.cache.manager.frames → a = b
  /-- A frame is free and not pinned, or it has its page. -/
  place : ∀ a < n, (a ∈ s.cache.manager.frees ∧ (s.cache.manager.frame a).pinCount = 0 ∧
      ∀ id, (id, a) ∉ s.cache.manager.frames) ∨
    a ∉ s.cache.manager.frees ∧ (((s.cache.manager.frame a).frameId, a) ∈ s.cache.manager.frames)
  /-- The pins are those of the handles and the headers. -/
  pins : ∀ id a, (id, a) ∈ s.cache.manager.frames →
    (s.cache.manager.frame a).pinCount = s.pins.count a
  /-- A dirty frame was modified since it was loaded. -/
  dirty : ∀ id a, (id, a) ∈ s.cache.manager.frames → (s.cache.manager.frame a).dirty = true →
    (s.cache.since a).modified = true
  /-- A frame is written back only after it was loaded. -/
  written : ∀ w ∈ s.cache.written, w.2.loaded = true

/-- No pinned frame is taken from its page. -/
def Stays (s s' : BufferPools D) : Prop :=
  ∀ id a, (id, a) ∈ s.cache.manager.frames → 0 < (s.cache.manager.frame a).pinCount →
    (id, a) ∈ s'.cache.manager.frames

/-- The pools have been opened, and nothing has been done to them. -/
structure Opened (n : Nat) (s : BufferPools D) : Prop where
  tidy : s.cache.manager.Tidy n
  /-- The headers are in frames, and nothing else is. -/
  frames : s.cache.manager.frames = s.pools.map fun pool => (⟨pool.id, 0⟩, pool.hdrFrame)
  /-- Each is pinned by its pool. -/
  pins : ∀ a, (s.cache.manager.frame a).pinCount = s.headers.count a
  clean : ∀ a, (s.cache.manager.frame a).dirty = false
  loaded : ∀ a ∈ s.headers, (s.cache.since a).loaded = true
  handles : s.handles = []
  written : s.cache.written = []

/-- A frame nobody has pinned, and that can be written if it is dirty. -/
def Purgeable (s : BufferPools D) (a : Nat) (writes : Bool) : Prop :=
  (s.cache.manager.frame a).pinCount = 0 ∧ ((s.cache.manager.frame a).dirty = true → writes = true)

/-- No dirty page is disposed of, what is purged is not pinned and can be written, and no write fails in
    `flush_all_pages` but the last. -/
def Admitted (s : BufferPools D) : PoolAction D → Prop
  | .call poolId (.disposePage pageNum) =>
    ∀ a, (⟨poolId, pageNum⟩, a) ∈ s.cache.manager.frames → (s.cache.manager.frame a).dirty = false
  | .call poolId (.purgePage pageNum writes) =>
    ∀ a, (⟨poolId, pageNum⟩, a) ∈ s.cache.manager.frames → s.Purgeable a writes
  | .call poolId (.purgeAllPages writes) =>
    ∀ a ∈ s.cache.manager.ofPool poolId, s.Purgeable a (writes a)
  | .call poolId (.flushAllPages writes) =>
    ∀ a ∈ (s.cache.manager.ofPool poolId).dropLast, writes a = true
  | _ => True

end BufferPools

/-! ## One call -/

namespace BufferPools

open BPFrameManager

variable {n : Nat} {s s' : BufferPools D} {pool : DiskBufferPool}

def Sound (n : Nat) (s : BufferPools D) : Prop := Accounted n s.cache s.pins none

/-- What an answer leaves, if there is one. -/
def Follows (n : Nat) (s : BufferPools D) (out : Except FrameFault (Answer D)) : Prop :=
  Returns out fun r => Sound n r.2 ∧ Keeps s.pins s.cache r.2.cache

theorem Sound.same (h : Sound n s) (r : RC × Option Nat) : Follows n s (.ok (r, s)) :=
  Returns.ok ⟨h, Keeps.refl _ _⟩

/-- The cache has changed, and neither pools nor handles have. -/
theorem Follows.cache {cache : FrameCache D} (hacc : Accounted n cache s.pins none)
    (hkeeps : Keeps s.pins s.cache cache) (r : RC × Option Nat) : Follows n s (.ok (r, { s with cache })) :=
  Returns.ok ⟨hacc, hkeeps⟩

theorem Follows.handOut {cache : FrameCache D} {a : Nat} (hacc : Accounted n cache (a :: s.pins) none)
    (hkeeps : Keeps s.pins s.cache cache) : Follows n s (.ok (s.handOut cache a)) :=
  Returns.ok ⟨hacc.perm List.perm_middle.symm, hkeeps⟩

theorem Follows.trans {out : Except FrameFault (Answer D)} (h : Follows n s' out) (hpins : s'.pins = s.pins)
    (hkeeps : Keeps s.pins s.cache s'.cache) : Follows n s out := by
  intro r hr
  obtain ⟨hsound, hkeeps'⟩ := h r hr
  rw [hpins] at hkeeps'
  exact ⟨hsound, hkeeps.trans hkeeps'⟩

/-- The header in memory holds no frame. -/
theorem pins_setHeader (s : BufferPools D) (pool : DiskBufferPool) (fileHeader : BPFileHeader) :
    (s.setHeader pool fileHeader).pins = s.pins := by
  refine congrArg (· ++ s.handles) ?_
  show (s.pools.map _).map DiskBufferPool.hdrFrame = s.pools.map DiskBufferPool.hdrFrame
  rw [List.map_map]
  refine List.map_congr_left fun q _ => ?_
  show (if q.id = pool.id then { q with fileHeader } else q).hdrFrame = q.hdrFrame
  split <;> rfl

theorem hdrFrame_mem (hpool : pool ∈ s.pools) : pool.hdrFrame ∈ s.pins :=
  List.mem_append_left _ (List.mem_map_of_mem hpool)

/-- The header of a pool is changed. -/
theorem Sound.setHeader (h : Sound n s) (hpool : pool ∈ s.pools) (fileHeader : BPFileHeader) :
    Sound n (s.setHeader pool fileHeader) := by
  unfold Sound
  rw [pins_setHeader]
  exact h.markDirty (hdrFrame_mem hpool) (Option.some_ne_none _).symm

/-- A frame that is handed out has one pin more, and the books are right. -/
theorem Sound.getThisPage (h : Sound n s) (pageNum : PageNum) (read : Option D) (writes : Bool) :
    Follows n s (s.getThisPage pool pageNum read writes) := by
  unfold BufferPools.getThisPage
  cases hget : s.cache.get ⟨pool.id, pageNum⟩ with
  | some out =>
    obtain ⟨-, hmem, -, hacc⟩ := Accounted.get h hget
    exact .handOut hacc fun id a _ hid => (hmem _).mpr hid
  | none =>
    rcases Accounted.allocateFrame h ⟨pool.id, pageNum⟩ with heq | ⟨a, c, heq, htaken⟩
    · rw [heq]
      exact Returns.error
    · rw [heq]
      obtain ⟨ha, hacc⟩ := htaken.fresh fun b => Accounted.get_eq_none hget b
      cases read with
      | some page => exact .handOut (hacc.loadPage page) htaken.keeps
      | none =>
        have hw : (c.manager.frame a).dirty = true → writes = true := fun hd =>
          absurd rfl (hacc.dirty a hd).2
        obtain ⟨c', heq', hreleased⟩ := hacc.purgeFrame htaken.mem ha (Or.inr rfl) hw
        show Follows n s (c.purgeFrame ⟨pool.id, pageNum⟩ a writes >>= _)
        rw [heq']
        exact .cache hreleased.accounted (htaken.keeps.trans hreleased.keeps) _

/-- So has the frame of a page at the end of the file. -/
theorem Sound.extendFile (h : Sound n s) (hpool : pool ∈ s.pools) (zeros : D) (writes : Bool) :
    Follows n s (s.extendFile pool zeros writes) := by
  show Follows n s (s.cache.allocateFrame ⟨pool.id, pool.fileHeader.pageCount⟩ >>= _)
  rcases Accounted.allocateFrame h ⟨pool.id, pool.fileHeader.pageCount⟩ with heq | ⟨a, c, heq, htaken⟩
  · rw [heq]
    exact Returns.error
  · rw [heq]
    have hhdr : pool.hdrFrame ∈ a :: s.pins := List.mem_cons_of_mem a (hdrFrame_mem hpool)
    have hcleared : Accounted n ((c.markDirty pool.hdrFrame).clearPage a zeros) (a :: s.pins) none := by
      rcases htaken.accounted with hacc | ⟨ha, hacc⟩
      · exact (hacc.markDirty hhdr (Option.some_ne_none _).symm).clearPage (Or.inl rfl) zeros
      · refine (hacc.markDirty hhdr fun heq => ha ?_).clearPage (Or.inr rfl) zeros
        rw [Option.some.inj heq]
        exact hdrFrame_mem hpool
    have hflushed := hcleared.flushPage htaken.mem (Option.some_ne_none a).symm writes
    have hframes : (((c.markDirty pool.hdrFrame).clearPage a zeros).flushPage a writes).2.manager.frames
        = c.manager.frames := by
      unfold FrameCache.flushPage
      split <;> rfl
    have hpins := pins_setHeader { s with cache := c } pool (pool.fileHeader.allocate pool.fileHeader.pageCount)
    refine Returns.ok ⟨hflushed.perm ?_, fun id b hb hid => ?_⟩
    · exact ((List.Perm.of_eq hpins.symm).cons a).trans List.perm_middle.symm
    · show (id, b) ∈ (((c.markDirty pool.hdrFrame).clearPage a zeros).flushPage a writes).2.manager.frames
      rw [hframes]
      exact htaken.keeps id b hb hid

/-- Whichever way the page comes, its frame is pinned once. -/
theorem Sound.allocatePage (h : Sound n s) (hpool : pool ∈ s.pools) (read : Option D) (zeros : D)
    (writes : Bool) : Follows n s (s.allocatePage pool read zeros writes) := by
  unfold BufferPools.allocatePage
  cases pool.fileHeader.freePage with
  | some pageNum =>
    have hset := h.setHeader hpool (pool.fileHeader.allocate pageNum)
    exact (hset.getThisPage _ read writes).trans (pins_setHeader s pool _) (Keeps.refl _ _)
  | none =>
    show Follows n s (if _ then _ else _)
    split
    · exact h.same _
    · exact h.extendFile hpool zeros writes

/-- A release that succeeds is of a frame with one pin. -/
theorem pinCount_of_freeInternal {m m' : BPFrameManager D} {id : FrameId} {a : Nat}
    (h : m.freeInternal id a = .ok m') : (m.frame a).pinCount = 1 := by
  unfold BPFrameManager.freeInternal at h
  split at h
  · rename_i hpin
    exact hpin.2
  · cases h

/-- A page that nobody holds is taken out of the frames. -/
theorem Sound.disposePage (h : Sound n s) (hpool : pool ∈ s.pools) {pageNum : Nat}
    (hclean : ∀ a, (⟨pool.id, pageNum⟩, a) ∈ s.cache.manager.frames →
      (s.cache.manager.frame a).dirty = false) : Follows n s (s.disposePage pool pageNum) := by
  unfold BufferPools.disposePage
  split
  · exact h.same _
  · cases hget : s.cache.get ⟨pool.id, pageNum⟩ with
    | none =>
      exact Returns.ok ⟨h.setHeader hpool _, Keeps.refl _ _⟩
    | some out =>
      obtain ⟨a, c⟩ := out
      obtain ⟨hid, hmem, hdirty, hacc⟩ := Accounted.get h hget
      show Follows n s (c.manager.freeInternal ⟨pool.id, pageNum⟩ a >>= _)
      cases hfree : c.manager.freeInternal ⟨pool.id, pageNum⟩ a with
      | error e => exact Returns.error
      | ok m =>
        have hpin := pinCount_of_freeInternal hfree
        rw [hacc.pins a, List.count_cons_self] at hpin
        have ha : a ∉ s.pins := List.count_eq_zero.mp (by omega)
        obtain ⟨heq, hreleased⟩ := hacc.release ((hmem _).mpr hid) ha (Or.inl rfl)
          (hdirty.trans (hclean a hid))
        rw [hfree] at heq
        obtain rfl := Except.ok.inj heq
        have hsound : Sound n { s with
            cache := { c with manager := c.manager.release ⟨pool.id, pageNum⟩ a } } := hreleased.accounted
        exact Returns.ok ⟨hsound.setHeader hpool _,
          fun id b hb hid => hreleased.keeps id b hb ((hmem _).mpr hid)⟩

/-- A frame that can be purged is gone; nothing else changes. -/
theorem Sound.purgePage (h : Sound n s) {pageNum : PageNum} {writes : Bool}
    (hpurge : ∀ a, (⟨pool.id, pageNum⟩, a) ∈ s.cache.manager.frames → s.Purgeable a writes) :
    Follows n s (s.purgePage pool pageNum writes) := by
  unfold BufferPools.purgePage
  cases hget : s.cache.get ⟨pool.id, pageNum⟩ with
  | none => exact h.same _
  | some out =>
    obtain ⟨a, c⟩ := out
    obtain ⟨hid, hmem, hdirty, hacc⟩ := Accounted.get h hget
    obtain ⟨hpin, hw⟩ := hpurge a hid
    rw [← hdirty] at hw
    have ha : a ∉ s.pins := List.count_eq_zero.mp ((h.pins a).symm.trans hpin)
    obtain ⟨c', heq, hreleased⟩ := hacc.purgeFrame ((hmem _).mpr hid) ha (Or.inl rfl) hw
    show Follows n s (c.purgeFrame ⟨pool.id, pageNum⟩ a writes >>= _)
    rw [heq]
    exact .cache hreleased.accounted (fun id b hb hid => hreleased.keeps id b hb ((hmem _).mpr hid)) _

/-- So are all frames of the pool. -/
theorem Sound.purgeAllPages (h : Sound n s) {writes : Nat → Bool}
    (hpurge : ∀ a ∈ s.cache.manager.ofPool pool.id, s.Purgeable a (writes a)) :
    Follows n s (s.purgeAllPages pool writes) := by
  obtain ⟨hacc, hframes, hdirty⟩ := Accounted.findList h pool.id
  have hall : ∀ a ∈ s.cache.manager.ofPool pool.id,
      (∃ pageNum, (⟨pool.id, pageNum⟩, a) ∈ (s.cache.findList pool.id).2.manager.frames) ∧ a ∉ s.pins ∧
        (((s.cache.findList pool.id).2.manager.frame a).dirty = true → writes a = true) := by
    intro a ha
    obtain ⟨hpin, hw⟩ := hpurge a ha
    rw [hframes, hdirty a]
    exact ⟨Accounted.mem_ofPool.mp ha, List.count_eq_zero.mp ((h.pins a).symm.trans hpin), hw⟩
  obtain ⟨c', heq, hacc', hkeeps⟩ :=
    Accounted.purgeFrames _ hacc (Accounted.nodup_ofPool h.tidy pool.id) hall
  unfold BufferPools.purgeAllPages
  show Follows n s (FrameCache.purgeFrames pool.id writes (s.cache.manager.ofPool pool.id)
    (s.cache.findList pool.id).2 >>= _)
  rw [heq]
  refine .cache hacc' (fun id b hb hid => hkeeps id b hb ?_) _
  rw [hframes]
  exact hid

/-- Flushing changes no pin, unless a write fails before the last frame. -/
theorem Sound.flushAllPages (h : Sound n s) {writes : Nat → Bool}
    (hw : ∀ a ∈ (s.cache.manager.ofPool pool.id).dropLast, writes a = true) :
    Follows n s (s.flushAllPages pool writes) := by
  obtain ⟨hacc, hframes, -⟩ := Accounted.findList h pool.id
  obtain ⟨rc, c', heq, hacc', hframes'⟩ := Accounted.flushFrames _ hacc (fun a ha => by
    obtain ⟨pageNum, hid⟩ := Accounted.mem_ofPool.mp ha
    rw [hframes]
    exact ⟨_, hid⟩) hw
  unfold BufferPools.flushAllPages
  show Follows n s (FrameCache.flushFrames writes (s.cache.manager.ofPool pool.id)
    (s.cache.findList pool.id).2 >>= _)
  rw [heq]
  refine .cache hacc' (fun id b _ hid => ?_) _
  rw [hframes', hframes]
  exact hid

/-- Looking at the frames changes nothing. -/
theorem Sound.checkAllPagesUnpinned (h : Sound n s) : Follows n s (s.checkAllPagesUnpinned pool) := by
  obtain ⟨hacc, hframes, -⟩ := Accounted.findList h pool.id
  obtain ⟨c', heq, hacc', hframes'⟩ := Accounted.unpinFrames _ hacc
  unfold BufferPools.checkAllPagesUnpinned
  show Follows n s (FrameCache.unpinFrames (s.cache.manager.ofPool pool.id)
    (s.cache.findList pool.id).2 >>= _)
  rw [heq]
  refine .cache hacc' (fun id b _ hid => ?_) _
  rw [hframes', hframes]
  exact hid

/-- Who holds a frame can give it back. -/
theorem Sound.unpinPage (h : Sound n s) {a : Nat} (ha : a ∈ s.handles) :
    Follows n s (s.cache.unpin a >>= fun cache =>
      return ((.success, none), { s with cache, handles := s.handles.erase a })) := by
  have hperm : s.pins.Perm (a :: (s.headers ++ s.handles.erase a)) :=
    ((List.perm_cons_erase ha).append_left s.headers).trans List.perm_middle
  obtain ⟨c', heq, hframes, hacc⟩ := (Accounted.perm h hperm).unpin
  rw [heq]
  refine Returns.ok ⟨hacc, fun id b _ hid => ?_⟩
  show (id, b) ∈ c'.manager.frames
  rw [hframes]
  exact hid

/-- The step lemma: one case for each call. -/
theorem Sound.step (h : Sound n s) {action : PoolAction D} (ha : Admitted s action) :
    Follows n s (s.step action) := by
  cases action with
  | unpinPage a =>
    show Follows n s (if a ∈ s.handles then _ else _)
    split
    · rename_i hmem
      exact h.unpinPage hmem
    · exact h.same _
  | modify a page =>
    show Follows n s (if a ∈ s.handles then _ else _)
    split
    · rename_i hmem
      exact .cache (Accounted.modify h (List.mem_append_right _ hmem) page) (fun _ _ _ hid => hid) _
    · exact h.same _
  | call poolId call =>
    unfold BufferPools.step
    cases hfind : s.pools.find? fun pool => decide (pool.id = poolId) with
    | none =>
      simp only [hfind]
      exact h.same _
    | some pool =>
      simp only [hfind]
      have hsome := List.find?_some hfind
      obtain rfl : pool.id = poolId := of_decide_eq_true hsome
      have hpool := List.mem_of_find?_eq_some hfind
      cases call with
      | getThisPage pageNum read writes => exact h.getThisPage pageNum read writes
      | allocatePage read zeros writes => exact h.allocatePage hpool read zeros writes
      | disposePage pageNum => exact h.disposePage hpool ha
      | purgePage pageNum writes => exact h.purgePage ha
      | purgeAllPages writes => exact h.purgeAllPages ha
      | flushAllPages writes => exact h.flushAllPages ha
      | checkAllPagesUnpinned => exact h.checkAllPagesUnpinned

/-- A pool that has been opened holds its header. -/
theorem Opened.sound (h : Opened n s) : Sound n s where
  tidy := h.tidy
  pins := by
    intro a
    rw [h.pins a]
    show _ = (s.headers ++ s.handles).count a
    rw [h.handles, List.append_nil]
  free := fun a _ => h.clean a
  dirty := by
    intro a hd
    rw [h.clean a] at hd
    cases hd
  loaded := by
    intro id a hid _
    rw [h.frames] at hid
    obtain ⟨pool, hpool, heq⟩ := List.mem_map.mp hid
    rw [← (Prod.mk.inj heq).2]
    exact h.loaded _ (List.mem_map_of_mem hpool)
  written := by
    intro w hw
    rw [h.written] at hw
    cases hw

/-- What the claims on a state are made of. -/
theorem Sound.orderly (h : Sound n s) : Orderly n s where
  one := fun _ _ _ ha hb => h.tidy.frame_unique ha hb
  place := by
    intro a ha
    by_cases hfree : a ∈ s.cache.manager.frees
    · exact Or.inl ⟨hfree, h.tidy.free a hfree⟩
    · obtain ⟨id, hid⟩ := ((h.tidy.all a).mp ha).resolve_left hfree
      refine Or.inr ⟨hfree, ?_⟩
      rw [h.tidy.own id a hid]
      exact hid
  pins := fun _ a _ => h.pins a
  dirty := fun _ a _ hd => (h.dirty a hd).1
  written := h.written

theorem Sound.stays (h : Sound n s) (hkeeps : Keeps s.pins s.cache s'.cache) : Stays s s' := by
  intro id a hid hpin
  rw [h.pins a] at hpin
  exact hkeeps id a (List.count_pos_iff.mp hpin) hid

/-- **The frames of several buffer pools.**  In every run of admitted actions the frames are orderly in every
    state, and no action takes a pinned frame from its page. -/
theorem frame_cache {s₀ : BufferPools D} (hs₀ : Opened n s₀)
    (h : Reachable step Admitted s₀ s) :
    Orderly n s ∧ ∀ action r s', Admitted s action → s.step action = .ok (r, s') → Stays s s' := by
  have hsound : Sound n s :=
    h.invariant hs₀.sound fun s action r s' hs ha heq => (hs.step ha (r, s') heq).1
  exact ⟨hsound.orderly, fun action r s' ha heq => hsound.stays (hsound.step ha (r, s') heq).2⟩

/-- A pool with its header and one more page, and two frames. -/
def onePool : BufferPools Nat where
  cache := {
    manager := {
      frame a := if a = 0 then ⟨⟨0, 0⟩, 0, false, 1⟩ else ⟨⟨-1, -1⟩, 0, false, 0⟩
      frames := [(⟨0, 0⟩, 0)]
      frees := [1] }
    since a := ⟨decide (a = 0), false⟩
    written := [] }
  pools := [⟨0, ⟨2, 2, fun _ => true⟩, 0⟩]
  handles := []

/-- One pool, of two frames. -/
theorem onePool_opened : Opened 2 onePool where
  tidy := {
    keys := by decide
    own := by
      intro id a ha
      obtain ⟨rfl, rfl⟩ := Prod.mk.inj (List.mem_singleton.mp ha)
      rfl
    frees := by decide
    free := by
      intro a ha
      obtain rfl := List.mem_singleton.mp ha
      refine ⟨rfl, fun id hid => ?_⟩
      exact absurd (Prod.mk.inj (List.mem_singleton.mp hid)).2 (by decide)
    all := by
      intro a
      show a < 2 ↔ a ∈ [1] ∨ ∃ id, (id, a) ∈ [((⟨0, 0⟩ : FrameId), 0)]
      simp only [List.mem_singleton, Prod.mk.injEq]
      constructor
      · intro ha
        rcases Nat.lt_or_ge a 1 with h | h
        · exact Or.inr ⟨⟨0, 0⟩, rfl, by omega⟩
        · exact Or.inl (by omega)
      · rintro (rfl | ⟨id, -, rfl⟩)
        · decide
        · decide }
  frames := rfl
  pins := by
    intro a
    show ((if a = 0 then (⟨⟨0, 0⟩, 0, false, 1⟩ : Frame Nat) else ⟨⟨-1, -1⟩, 0, false, 0⟩).pinCount)
      = [0].count a
    by_cases ha : a = 0
    · subst ha
      rfl
    · rw [if_neg ha, List.count_cons_of_ne (Ne.symm ha)]
      rfl
  clean := by
    intro a
    show ((if a = 0 then (⟨⟨0, 0⟩, 0, false, 1⟩ : Frame Nat) else ⟨⟨-1, -1⟩, 0, false, 0⟩).dirty) = false
    split <;> rfl
  loaded := by
    intro a ha
    obtain rfl := List.mem_singleton.mp ha
    rfl
  handles := rfl
  written := rfl

/-- A page is fetched and changed. -/
theorem frame_cache_modify :
    ∃ rs s, runOps step onePool [.call 0 (.getThisPage 1 (some 5) true), .modify 1 6] = .ok (rs, s) ∧
      Orderly 2 s := by
  have hinit : Reachable step Admitted onePool onePool := .init
  have hreach := (hinit.next (.call 0 (.getThisPage 1 (some 5) true)) trivial rfl).next (.modify 1 6) trivial rfl
  exact ⟨_, _, rfl, (frame_cache onePool_opened hreach).1⟩

/-- A pinned page is purged; a page that cannot be written is flushed; and a dirty page is disposed of before
    the next read fails. -/
theorem stale_frames :
    (∃ rs s, runOps step onePool [.call 0 (.getThisPage 1 (some 5) true), .call 0 (.purgePage 1 true)]
      = .ok (rs, s) ∧ ¬ Orderly 2 s) ∧
    (∃ rs s, runOps step onePool [.call 0 (.getThisPage 1 (some 5) true),
        .call 0 (.flushAllPages fun a => decide (a = 0))]
      = .ok (rs, s) ∧ ¬ Orderly 2 s) ∧
    ∃ rs s, runOps step onePool [.call 0 (.getThisPage 1 (some 5) true), .modify 1 6, .unpinPage 1,
        .call 0 (.disposePage 1), .call 0 (.getThisPage 1 none true)]
      = .ok (rs, s) ∧ ¬ Orderly 2 s := by
  refine ⟨⟨_, _, rfl, fun h => ?_⟩, ⟨_, _, rfl, fun h => ?_⟩, _, _, rfl, fun h => ?_⟩
  · exact absurd (h.pins ⟨0, 1⟩ 1 List.mem_cons_self) (by decide)
  · exact absurd (h.pins ⟨0, 0⟩ 0 (List.mem_cons_of_mem _ List.mem_cons_self)) (by decide)
  · exact absurd (h.written _ List.mem_cons_self) (by decide)

end BufferPools

end Miniob.Cache
