/-
  Reading a page back in every run of a buffer pool.

  A page that is allocated shows what was written last through a frame since it was allocated, or
  what it was allocated with (`pages_read_back`).  It does not always show what was written last:
  `dispose_page` drops a frame that has not been written down, and `allocate_page` hands a page number
  out again with whatever is stored under it (`disposed_page_forgets_write`).
-/
import Miniob.Buffer.PageOperations

namespace Miniob.Buffer

open Miniob.Common Miniob.Storage

variable {D : Type}

namespace DiskBufferPool

/-! ## Opening a file -/

/-- `open_file`: the header page is loaded, and its frame stays pinned. -/
def openFile (cfg : PoolConfig D) (frees : List (Frame D))
    (dblwr : DiskDoubleWriteBuffer (PageData D)) (files : Files (PageData D))
    (t : Traversal (PageData D)) : Except BufferFault (Result D × DiskBufferPool D) :=
  match files.data (key cfg 0) with
  | none => .ok (.error .ioerrRead, ⟨[], frees, dblwr, files⟩)
  | some _ => (⟨[], frees, dblwr, files⟩ : DiskBufferPool D).getThisPage cfg 0 t

/-- A header page, and the pages that it counts. -/
structure FileComplete (cfg : PoolConfig D) (dblwr : DiskDoubleWriteBuffer (PageData D))
    (files : Files (PageData D)) : Prop where
  tidy : Tidy dblwr
  pages : ∃ page h, stored dblwr files (key cfg 0) = some page ∧ page.data = .header h ∧
    0 < h.pageCount ∧ ∀ p < h.pageCount, (stored dblwr files (key cfg p)).isSome

/-! ## What has been written -/

/-- The pages that the header has as allocated. -/
def Allocated (s : DiskBufferPool D) (p : Nat) : Prop :=
  ∃ h, s.header = some h ∧ p < h.pageCount ∧ h.bitmap p = true

/-- What an action writes through frames.  A page number that is handed out again is not written. -/
def writes (s : DiskBufferPool D) : PoolAction D → Result D → Nat → Option (Int × PageData D)
  | .writeFrame pageNum lsn d, .ok _ => written pageNum (lsn, .data d)
  | .disposePage pageNum lsn, .ok _ => fun q =>
    s.header.bind fun h => written 0 (lsn, .header (h.dispose pageNum)) q
  | .allocatePage lsn _, .ok (some (pageNum, page)) => fun q =>
    s.header.bind fun h =>
      if h.pageCount ≤ pageNum then allocates lsn h pageNum page q
      else written 0 (lsn, .header (h.allocate pageNum)) q
  | _, _ => fun _ => none

/-- The same, and what is handed out by an allocation. -/
def writesOrAllocates (s : DiskBufferPool D) :
    PoolAction D → Result D → Nat → Option (Int × PageData D)
  | .allocatePage lsn _, .ok (some (pageNum, page)) => fun q =>
    s.header.bind fun h => allocates lsn h pageNum page q
  | a, r => s.writes a r

end DiskBufferPool

/-- A run of a buffer pool with what has been written.  The code has only the pool. -/
structure PoolRun (D : Type) where
  pool : DiskBufferPool D
  /-- What was written last. -/
  lastWrite : Nat → Option (Int × PageData D)
  /-- What was written last since the page was allocated, or what it was allocated with. -/
  sinceAllocation : Nat → Option (Int × PageData D)

namespace PoolRun

variable (cfg : PoolConfig D)

/-- Before the run the pages hold what is in the file. -/
def opened (pool : DiskBufferPool D) : PoolRun D := ⟨pool, pool.content cfg, pool.content cfg⟩

def step (s : PoolRun D) (a : PoolAction D) :
    Except BufferFault (DiskBufferPool.Result D × PoolRun D) := do
  let (r, pool) ← s.pool.step cfg a
  return (r, {
    pool
    lastWrite := fun p => (s.pool.writes a r p).or (s.lastWrite p)
    sinceAllocation := fun p => (s.pool.writesOrAllocates a r p).or (s.sinceAllocation p) })

/-- `get_this_page` returns what is in `w`, for every page that is allocated.  It may have to wait
    for a frame. -/
def ReadsBack (w : Nat → Option (Int × PageData D)) (pool : DiskBufferPool D) : Prop :=
  ∀ p t, pool.Allocated p → pool.Stuck p ∨
    ∃ page pool', pool.getThisPage cfg p t = .ok (.ok (some (p, page)), pool') ∧
      w p = some page.content

end PoolRun

namespace DiskBufferPool

/-! ## The step -/

section Steps

variable {cfg : PoolConfig D} {s s' : DiskBufferPool D} {p : Nat} {t : Traversal (PageData D)}
  {lsn : Int}

/-- What a step keeps: the pages that are allocated behind it hold what it writes, or what they
    held; and they were allocated before it, or are written by it. -/
def Keeps (cfg : PoolConfig D) (u : Nat → Option (Int × PageData D)) (s s' : DiskBufferPool D) : Prop :=
  Layered cfg s' ∧ ∀ q, s'.Allocated q → (s.Allocated q ∨ (u q).isSome) ∧
    ∀ c, (u q).or (s.content cfg q) = some c → s'.content cfg q = some c

theorem Layered.keeps_same (h : Layered cfg s) (h' : Layered cfg s' ∧ Same cfg s s') :
    Keeps cfg (fun _ => none) s s' := by
  refine ⟨h'.1, fun q hq => ⟨Or.inl ?_, fun c hc => h'.2 q c hc⟩⟩
  unfold Allocated at hq ⊢
  rwa [h.header_same h'.1 h'.2] at hq

/-- An allocation writes its own page. -/
theorem Layered.keeps_allocatePage (h : Layered cfg s) {r : Result D}
    (hrun : s.allocatePage cfg lsn t = .ok (r, s')) :
    Keeps cfg (s.writesOrAllocates (.allocatePage lsn t) r) s s' := by
  obtain ⟨h₀, hh, -⟩ := h.header_isSome
  rcases h.allocatePage hh hrun with ⟨rfl, rfl⟩ | ⟨p, page, rfl, hp, h', hh', hbecomes⟩
  · exact h.keeps_same ⟨h, .refl _⟩
  · have hu : s.writesOrAllocates (.allocatePage lsn t) (.ok (some (p, page))) =
        allocates lsn h₀ p page := by
      funext q
      unfold writesOrAllocates
      rw [hh]
      rfl
    rw [hu]
    refine ⟨h', fun q hq => ⟨?_, hbecomes q⟩⟩
    obtain ⟨h₁, hh₁, hlt, hbit⟩ := hq
    obtain rfl := Option.some.inj (hh'.symm.trans hh₁)
    by_cases hqp : q = p
    · refine Or.inr ?_
      unfold allocates written
      rw [if_pos hqp]
      rfl
    · refine Or.inl ⟨h₀, hh, ?_, ?_⟩
      · have hmax : q < max h₀.pageCount (p + 1) := hlt
        omega
      · have : (if q = p then true else h₀.bitmap q) = true := hbit
        rwa [if_neg hqp] at this

/-- A page that is given back may forget what it held. -/
theorem Layered.keeps_disposePage (h : Layered cfg s) {r : Result D}
    (hrun : s.disposePage p lsn = .ok (r, s')) :
    Keeps cfg (s.writesOrAllocates (.disposePage p lsn) r) s s' := by
  obtain ⟨h₀, hh, -⟩ := h.header_isSome
  by_cases hp : p = 0
  · unfold DiskBufferPool.disposePage at hrun
    rw [if_pos hp] at hrun
    obtain ⟨rfl, rfl⟩ := Prod.mk.inj (Except.ok.inj hrun)
    exact h.keeps_same ⟨h, .refl _⟩
  · obtain ⟨rfl, h', hh', hcontents⟩ := h.disposePage hh hp hrun
    have hu : ∀ q, s.writesOrAllocates (.disposePage p lsn) (.ok none) q =
        written 0 (lsn, .header (h₀.dispose p)) q := by
      intro q
      unfold writesOrAllocates writes
      rw [hh]
      rfl
    refine ⟨h', fun q hq => ?_⟩
    obtain ⟨h₁, hh₁, hlt, hbit⟩ := hq
    obtain rfl := Option.some.inj (hh'.symm.trans hh₁)
    -- the page itself is not allocated any more
    have hbit' : (if q = p then false else h₀.bitmap q) = true := hbit
    have hqp : q ≠ p := by
      intro heq
      rw [if_pos heq] at hbit'
      cases hbit'
    rw [if_neg hqp] at hbit'
    rw [hu]
    exact ⟨Or.inl ⟨h₀, hh, hlt, hbit'⟩, hcontents q hqp⟩

/-- A write goes to its own page. -/
theorem Layered.keeps_writeFrame (h : Layered cfg s) {d : D} {r : Result D}
    (hrun : s.writeFrame p lsn d = .ok (r, s')) :
    Keeps cfg (s.writesOrAllocates (.writeFrame p lsn d) r) s s' := by
  obtain ⟨rfl, hp, h', hbecomes⟩ := h.writeFrame hrun
  obtain ⟨h₀, hh, -⟩ := h.header_isSome
  have hh' : s'.header = some h₀ := by
    obtain ⟨l, hc⟩ := h.header_iff.mp hh
    refine h'.header_iff.mpr ⟨l, hbecomes 0 _ ?_⟩
    unfold written
    rw [if_neg hp.symm]
    exact hc
  refine ⟨h', fun q hq => ⟨Or.inl ?_, hbecomes q⟩⟩
  unfold Allocated at hq ⊢
  rwa [hh', ← hh] at hq

/-- **Step.** -/
theorem Layered.step (h : Layered cfg s) {a : PoolAction D} {r : Result D}
    (hrun : s.step cfg a = .ok (r, s')) : Keeps cfg (s.writesOrAllocates a r) s s' := by
  -- these three write a page or allocate one
  cases a with
  | allocatePage lsn t => exact h.keeps_allocatePage hrun
  | disposePage p lsn => exact h.keeps_disposePage hrun
  | writeFrame p lsn d => exact h.keeps_writeFrame hrun
  -- the others move pages between the frames, the buffer and the file, and are read back the same
  | getThisPage p t =>
    obtain ⟨h', hsame, -⟩ := h.getThisPage hrun
    exact h.keeps_same ⟨h', hsame⟩
  | unpinPage p =>
    obtain ⟨-, h', hsame⟩ := h.unpinPage hrun
    exact h.keeps_same ⟨h', hsame⟩
  | flushPage p t =>
    obtain ⟨rfl, rfl⟩ := Prod.mk.inj (Except.ok.inj hrun)
    exact h.keeps_same (h.flushPage p t)
  | flushAllPages t =>
    obtain ⟨rfl, rfl⟩ := Prod.mk.inj (Except.ok.inj hrun)
    exact h.keeps_same (h.flushFrames _)
  | purgePage p t =>
    obtain ⟨rfl, rfl⟩ := Prod.mk.inj (Except.ok.inj hrun)
    exact h.keeps_same (h.purgePage p t)
  | purgeAllPages t =>
    obtain ⟨rfl, rfl⟩ := Prod.mk.inj (Except.ok.inj hrun)
    exact h.keeps_same (h.purgeAllPages t)
  | evict t =>
    unfold DiskBufferPool.step at hrun
    dsimp only at hrun
    split at hrun
    · cases hrun
    · rename_i s₁ hevict
      obtain ⟨rfl, rfl⟩ := Prod.mk.inj (Except.ok.inj hrun)
      obtain ⟨h', hsame, -⟩ := h.evict hevict
      exact h.keeps_same ⟨h', hsame⟩
  | flushDoubleWrite t =>
    obtain ⟨rfl, rfl⟩ := Prod.mk.inj (Except.ok.inj hrun)
    obtain ⟨htidy, hstays⟩ := h.tidy.flushPage cfg.fmt s.files t
    exact h.keeps_same (h.writeDown htidy hstays)
  | clearPages t =>
    obtain ⟨rfl, rfl⟩ := Prod.mk.inj (Except.ok.inj hrun)
    obtain ⟨htidy, hstays⟩ := h.tidy.clearPages cfg.fmt s.files cfg.bufferPoolId t
    exact h.keeps_same (h.writeDown htidy hstays)

end Steps

/-- **Start.** -/
theorem openFile_layered {cfg : PoolConfig D} {frees : List (Frame D)}
    {dblwr : DiskDoubleWriteBuffer (PageData D)} {files : Files (PageData D)}
    {t : Traversal (PageData D)} {out : Option (Nat × Page (PageData D))} {s : DiskBufferPool D}
    (hfile : FileComplete cfg dblwr files)
    (hopen : openFile cfg frees dblwr files t = .ok (.ok out, s)) : Layered cfg s := by
  unfold openFile at hopen
  -- without the first page the file is not opened
  split at hopen
  · cases hopen
  · obtain ⟨page, h₀, hpage, hdata, hcount, hpresent⟩ := hfile.pages
    unfold getThisPage at hopen
    obtain ⟨⟨f, s₂⟩, halloc, hload⟩ := ok_of_bind hopen
    -- the first frame of the free list takes the header page
    cases frees with
    | nil => cases halloc
    | cons f₀ frees =>
      obtain ⟨rfl, rfl⟩ := Prod.mk.inj (Except.ok.inj halloc)
      have hbelow : below cfg ⟨[{ f₀ with pageNum := 0, pinCount := 1 }], frees, dblwr, files⟩ 0 =
          some page := hpage
      dsimp only at hload
      rw [loadPage_eq, hbelow] at hload
      obtain ⟨-, rfl⟩ := Prod.mk.inj (Except.ok.inj hload)
      -- no other frame is in memory
      have hframe : ∀ q, (setFrame
          (⟨[{ f₀ with pageNum := 0, pinCount := 1 }], frees, dblwr, files⟩ : DiskBufferPool D)
          ⟨0, page, f₀.dirty, 1⟩).frame q =
            if q = 0 then some ⟨0, page, f₀.dirty, 1⟩ else none := by
        intro q
        refine (setFrame_replaces (f := ⟨0, page, f₀.dirty, 1⟩) rfl q).trans ?_
        dsimp only
        by_cases hq : q = 0
        · rw [if_pos hq, if_pos hq]
        · rw [if_neg hq, if_neg hq]
          exact List.find?_cons_of_neg (by simpa using fun heq => hq heq.symm)
      -- the only frame is clean and pinned, and it counts what the file counts
      refine ⟨hfile.tidy, List.nodup_singleton _, ?_, ?_, ?_⟩
      · intro q g hg hdirty
        rw [hframe] at hg
        split at hg
        · rename_i hq
          obtain rfl := Option.some.inj hg
          rw [hq]
          exact congrArg (Option.map Page.content) hpage
        · cases hg
      · exact ⟨_, h₀, (hframe 0).trans (if_pos rfl), Nat.one_pos, hdata, hcount⟩
      · intro g h₁ hg hh₁ q hq
        rw [hframe, if_pos rfl] at hg
        obtain rfl := Option.some.inj hg
        obtain rfl : h₀ = h₁ := by
          have heq := hdata.symm.trans hh₁
          injection heq
        exact hpresent q hq

end DiskBufferPool

namespace PoolRun

open DiskBufferPool

/-! ## Runs -/

section Runs

variable {cfg : PoolConfig D}

/-- What has been written since an allocation is what the pages show. -/
def Shows (cfg : PoolConfig D) (s : PoolRun D) : Prop :=
  Layered cfg s.pool ∧ ∀ p, s.pool.Allocated p → s.sinceAllocation p = s.pool.content cfg p

/-- **Step.** -/
theorem Shows.step {s s' : PoolRun D} {a : PoolAction D} {r : Result D} (h : Shows cfg s)
    (hrun : s.step cfg a = .ok (r, s')) : Shows cfg s' := by
  obtain ⟨hlayered, hshows⟩ := h
  obtain ⟨⟨r', pool⟩, hstep, hrest⟩ := ok_of_bind hrun
  obtain ⟨rfl, rfl⟩ := Prod.mk.inj (Except.ok.inj hrest)
  obtain ⟨hlayered', hkeeps⟩ := hlayered.step hstep
  refine ⟨hlayered', fun p hp => ?_⟩
  obtain ⟨hbefore, hcontent⟩ := hkeeps p hp
  dsimp only
  cases hu : s.pool.writesOrAllocates a r' p with
  | some c =>
    rw [hu] at hcontent
    exact (hcontent c rfl).symm
  | none =>
    rw [hu] at hcontent hbefore
    rcases hbefore with hold | hnone
    · obtain ⟨h₀, hh, hlt, -⟩ := id hold
      obtain ⟨c, hc⟩ := hlayered.content_isSome hh hlt
      rw [Option.none_or, hshows p hold, hc]
      exact (hcontent c hc).symm
    · cases hnone

/-- What was written since the page was allocated is read. -/
theorem Shows.readsBack {s : PoolRun D} (h : Shows cfg s) :
    ReadsBack cfg s.sinceAllocation s.pool := by
  obtain ⟨hlayered, hshows⟩ := h
  intro p t hp
  cases hget : s.pool.getThisPage cfg p t with
  | error e => exact Or.inl (hlayered.getThisPage_error hget)
  | ok out =>
    obtain ⟨h₀, hh, hlt, -⟩ := id hp
    obtain ⟨c, hc⟩ := hlayered.content_isSome hh hlt
    obtain ⟨-, hsame, hresult⟩ := hlayered.getThisPage (r := out.1) hget
    rcases hresult with ⟨page, hpage, hcontent⟩ | ⟨-, hnone⟩
    · refine Or.inr ⟨page, out.2, ?_, ?_⟩
      · rw [← hpage]
      · rw [hshows p hp, hc, ← hsame p c hc]
        exact hcontent
    · rw [hnone] at hc
      cases hc

/-- **Pages are read back.**  In every run `get_this_page` returns, for a page that is allocated, what
    was written last through a frame since the page was allocated, or what it was allocated with;
    unless all frames are pinned and it waits. -/
theorem pages_read_back {frees : List (Frame D)} {dblwr : DiskDoubleWriteBuffer (PageData D)}
    {files : Files (PageData D)} {t : Traversal (PageData D)}
    {out : Option (Nat × Page (PageData D))} {pool : DiskBufferPool D} {s : PoolRun D}
    (hfile : FileComplete cfg dblwr files)
    (hopen : openFile cfg frees dblwr files t = .ok (.ok out, pool))
    (h : Reachable (PoolRun.step cfg) (fun _ _ => True) (.opened cfg pool) s) :
    ReadsBack cfg s.sinceAllocation s.pool := by
  refine (h.invariant (I := Shows cfg) ⟨openFile_layered hfile hopen, fun p _ => rfl⟩ ?_).readsBack
  exact fun s a r s' hs _ hrun => hs.step hrun

end Runs

/-! ## A page number that is handed out again -/

/-- Data are numbers; the file has its header page. -/
def newConfig : PoolConfig Nat := ⟨⟨fun _ => 0, .data 0⟩, 1, 16⟩

def newFiles : Files (PageData Nat) where
  pageCnt := 0
  slots _ := none
  data k := if k = key newConfig 0 then some ⟨0, 0, .header ⟨1, 1, fun i => i = 0⟩⟩ else none

def newFrame : Frame Nat := ⟨0, ⟨0, 0, .data 0⟩, false, 0⟩

/-- The pool that has opened it, with two frames. -/
def newPool : DiskBufferPool Nat :=
  ⟨[⟨0, ⟨0, 0, .header ⟨1, 1, fun i => i = 0⟩⟩, false, 1⟩], [newFrame], .empty, newFiles⟩

theorem newFiles_complete : FileComplete newConfig .empty newFiles := by
  refine ⟨.empty, ⟨0, 0, .header ⟨1, 1, fun i => i = 0⟩⟩, ⟨1, 1, fun i => i = 0⟩, rfl, rfl,
    Nat.one_pos, fun p hp => ?_⟩
  obtain rfl := Nat.lt_one_iff.mp hp
  rfl

theorem newPool_opened : openFile newConfig [newFrame, newFrame] .empty newFiles .inserted =
    .ok (.ok (some (0, ⟨0, 0, .header ⟨1, 1, fun i => i = 0⟩⟩)), newPool) := rfl

/-- A page is written, disposed and allocated again. -/
def disposed : List (PoolAction Nat) :=
  [.allocatePage 1 .inserted, .writeFrame 1 2 7, .unpinPage 1, .disposePage 1 3,
    .allocatePage 4 .inserted]

/-- **Not what was written last.**  The second `allocate_page` hands page 1 out with zeros. -/
theorem disposed_page_forgets_write : ∃ s, FileComplete newConfig .empty newFiles ∧
    openFile newConfig [newFrame, newFrame] .empty newFiles .inserted =
      .ok (.ok (some (0, ⟨0, 0, .header ⟨1, 1, fun i => i = 0⟩⟩)), newPool) ∧
    Reachable (PoolRun.step newConfig) (fun _ _ => True) (.opened newConfig newPool) s ∧
    ¬ ReadsBack newConfig s.lastWrite s.pool := by
  have hrun : ∃ rs s, runOps (PoolRun.step newConfig) (.opened newConfig newPool) disposed =
      .ok (rs, s) ∧ s.pool.Allocated 1 ∧ s.lastWrite 1 = some (2, .data 7) ∧
      (s.pool.frame 1).map (fun f => f.page.content) = some (0, .data 0) :=
    ⟨_, _, rfl, ⟨_, rfl, by decide, rfl⟩, rfl, rfl⟩
  obtain ⟨rs, s, hrun, halloc, hlast, hframe⟩ := hrun
  refine ⟨s, newFiles_complete, newPool_opened, .of_runOps .init hrun, fun hback => ?_⟩
  obtain ⟨f, hf, hpage⟩ := Option.map_eq_some_iff.mp hframe
  rcases hback 1 .inserted halloc with hstuck | ⟨page, pool', hget, hw⟩
  · rw [hstuck.1] at hf
    cases hf
  · unfold getThisPage at hget
    rw [hf] at hget
    obtain ⟨hpage', -⟩ := Prod.mk.inj (Except.ok.inj hget)
    obtain ⟨-, rfl⟩ := Prod.mk.inj (Option.some.inj (Except.ok.inj hpage'))
    rw [hlast, hpage] at hw
    cases hw

/-- There it is the zeros that are read back. -/
theorem pages_read_back_disposed : ∃ s,
    Reachable (PoolRun.step newConfig) (fun _ _ => True) (.opened newConfig newPool) s ∧
    s.pool.Allocated 1 ∧ s.sinceAllocation 1 = some (0, .data 0) ∧
    ReadsBack newConfig s.sinceAllocation s.pool := by
  have hrun : ∃ rs s, runOps (PoolRun.step newConfig) (.opened newConfig newPool) disposed =
      .ok (rs, s) ∧ s.pool.Allocated 1 ∧ s.sinceAllocation 1 = some (0, .data 0) :=
    ⟨_, _, rfl, ⟨_, rfl, by decide, rfl⟩, rfl⟩
  obtain ⟨rs, s, hrun, halloc, hsince⟩ := hrun
  have hs : Reachable (PoolRun.step newConfig) (fun _ _ => True) (.opened newConfig newPool) s :=
    .of_runOps .init hrun
  exact ⟨s, hs, halloc, hsince, pages_read_back newFiles_complete newPool_opened hs⟩

end PoolRun

end Miniob.Buffer
