/-
  Pages and the log (`DiskBufferPool` with its `BufferPoolLogHandler`, the double write buffer and the log
  handler of a `Db`).

  * A page that is changed gets the LSN of a log entry.  `flush_page_internal` waits until the log is
    flushed up to the LSN of the page, whatever comes of the waiting, and hands the page to the double
    write buffer.  The frame is not latched in between.
  * `wait_lsn` waits only while the log handler is running: not during a recovery, and not after `stop`.
  * The thread of the log handler, and each write to the double write file and the data files, are steps of
    their own, and a crash may come between any two of them.  The double write buffer is locked until
    its writes are made.

  **The log is written ahead** (`write_ahead`) in every run in which no write of a log entry breaks off half
  way, no page is changed between the wait for it and its copy, and no wait fails after `stop`.  What carries
  it is that nothing in the double write buffer, in its writes or in the files has an LSN behind the flushed
  one (`AllPages`), and that a new process reads all of the log that was written (`Sealed`).

  Left out: latches and pins of frames, and the disk of the frames running full; a dirty page is evicted by
  a flush and an eviction.
-/
import Miniob.Buffer.Stored
import Miniob.Clog.WholeEntries

namespace Miniob.Buffer

open Miniob.Common Miniob.Storage Miniob.Clog

/-! ## The machine -/

variable {D : Type}

/-- `Frame`. -/
structure CachedPage (D : Type) where
  page : Page D
  dirty : Bool

/-- Where the log is: it recovers, runs or has been stopped. -/
inductive LogPhase where
  /-- Before `start`. -/
  | recovering
  /-- `running_`. -/
  | running
  /-- After `stop`. -/
  | stopped
  deriving DecidableEq

/-- The frames, the double-write buffer, the files, and the log. -/
structure PageStore (D : Type) where
  /-- The buffer of the log handler, with its thread and the log files. -/
  log : LogEntryBuffer
  phase : LogPhase
  /-- `check_point_lsn_` in the meta file. -/
  checkPoint : Int
  /-- The LSN up to which the log was read when the process was started. -/
  recovered : Int
  /-- The entries that were read, to be redone. -/
  redo : List LogEntry
  frames : DoubleWritePageKey → Option (CachedPage D)
  /-- The pages that are being flushed, and the LSN that is waited for. -/
  waiting : DoubleWritePageKey → Option Int
  dblwr : DiskDoubleWriteBuffer D
  /-- The writes that the double write buffer has still to make. -/
  pending : List (Write D)
  files : Files D

/-- What happens next, in the process or to it. -/
inductive PageAction (D : Type) where
  /-- `append`, and the next step of the thread of the log handler. -/
  | log (a : Clog.BufferAction)
  /-- A page is changed, and gets the LSN of an entry that was appended, or that is redone. -/
  | modify (key : DoubleWritePageKey) (data : D) (lsn : Int)
  | getThisPage (key : DoubleWritePageKey)
  | allocatePage (key : DoubleWritePageKey)
  | purgePage (key : DoubleWritePageKey)
  /-- `flush_page_internal` calls `wait_lsn`. -/
  | waitLsn (key : DoubleWritePageKey)
  /-- It goes on behind `wait_lsn`. -/
  | addPage (key : DoubleWritePageKey) (t : Traversal D)
  /-- `flush_page` of the double write buffer, at a sync or when it is recovered. -/
  | flushPage (t : Traversal D)
  | clearPages (bufferPoolId : Int) (t : Traversal D)
  /-- The double write buffer makes its next write. -/
  | write
  /-- `sync` has waited for this LSN, and makes it the check point. -/
  | checkPoint (lsn : Int)
  | stop
  /-- A crash, and a new process that reads the double write file and the log. -/
  | restart
  | start

inductive StoreFault where
  | log (fault : LogFault)
  | io (rc : RC)
  /-- The action has to wait, or cannot be made here. -/
  | blocked
  deriving DecidableEq

namespace PageStore

/-- An empty database. -/
def empty : PageStore D where
  log := .init [] 0
  phase := .recovering
  checkPoint := 0
  recovered := 0
  redo := []
  frames _ := none
  waiting _ := none
  dblwr := .empty
  pending := []
  files := ⟨0, fun _ => none, fun _ => none⟩

section Step

variable (fmt : PageFormat D) (maxPages : Nat) (s : PageStore D)

/-- `current_flushed_lsn`. -/
def flushedLsn : Int := s.log.handler.flushedLsn

def setFrame (key : DoubleWritePageKey) (frame : Option (CachedPage D)) : PageStore D :=
  { s with frames := Function.update s.frames key frame }

/-- Where the double write buffer is not locked. -/
def unlocked (next : Except StoreFault (PageStore D)) : Except StoreFault (PageStore D) :=
  if s.pending.isEmpty then next else .error .blocked

def appendLog (module : LogModule) (data : List UInt8) : Except StoreFault (PageStore D) :=
  if s.phase = .running then .ok { s with log := s.log.append module data }
  else .error (.log .assertion)

def logThread (breaksOff : Option Nat) : Except StoreFault (PageStore D) :=
  if s.phase = .recovering then .error .blocked
  else
    match s.log.next breaksOff with
    | .error fault => .error (.log fault)
    | .ok log => .ok { s with log }

/-- A page is changed in its frame; the LSN is that of an entry that is to be redone or was appended. -/
def modify (key : DoubleWritePageKey) (data : D) (lsn : Int) : Except StoreFault (PageStore D) :=
  match s.frames key with
  | none => .error .blocked
  | some frame =>
    if (s.redo ++ s.log.appended).any fun e => e.lsn = lsn then
      .ok (s.setFrame key (some ⟨{ frame.page with lsn, data }, true⟩))
    else .error .blocked

/-- `get_this_page`, with `load_page`. -/
def getThisPage (key : DoubleWritePageKey) : Except StoreFault (PageStore D) :=
  match s.frames key with
  | some _ => .ok s
  | none =>
    match s.dblwr.readPage key with
    | .ok page => .ok (s.setFrame key (some ⟨page, false⟩))
    | .error _ =>
      match s.files.data key with
      | some page => .ok (s.setFrame key (some ⟨page, false⟩))
      | none => .error (.io .ioerrRead)

/-- The frame of a page that is allocated, before it is flushed. -/
def allocatePage (key : DoubleWritePageKey) : Except StoreFault (PageStore D) :=
  match s.frames key with
  | some _ => .error .blocked
  | none => .ok (s.setFrame key (some ⟨fmt.zeroPage, false⟩))

def purgePage (key : DoubleWritePageKey) : Except StoreFault (PageStore D) :=
  match s.frames key with
  | none => .ok s
  | some frame => if frame.dirty then .error .blocked else .ok (s.setFrame key none)

def waitLsn (key : DoubleWritePageKey) : Except StoreFault (PageStore D) :=
  match s.frames key with
  | none => .error .blocked
  | some frame => .ok { s with waiting := Function.update s.waiting key (some frame.page.lsn) }

/-- `add_page` of the double-write buffer; it goes through the pages that are there. -/
def addPage (key : DoubleWritePageKey) (t : Traversal D) : Except StoreFault (PageStore D) :=
  match s.frames key, s.waiting key with
  | some frame, some lsn =>
    if s.phase = .running ∧ s.flushedLsn < lsn then .error .blocked
    else
      let page := { frame.page with checkSum := fmt.crc32 frame.page.data }
      let (dblwr, pending) := s.dblwr.addPage maxPages key page t
      .ok { s.setFrame key (some ⟨page, false⟩) with
        waiting := Function.update s.waiting key none
        dblwr, pending }
  | _, _ => .error .blocked

/-- The double write buffer is what it is then, and has to make the writes. -/
def writes (out : DiskDoubleWriteBuffer D × List (Write D)) : PageStore D :=
  { s with dblwr := out.1, pending := out.2 }

def write : Except StoreFault (PageStore D) :=
  match s.pending with
  | [] => .error .blocked
  | w :: pending => .ok { s with files := s.files.write fmt w, pending }

def setCheckPoint (lsn : Int) : Except StoreFault (PageStore D) :=
  if lsn ≤ s.flushedLsn then .ok { s with checkPoint := lsn } else .error .blocked

/-- `Db::init` on what is on the disk. -/
def restart : Except StoreFault (PageStore D) :=
  match loadPages fmt s.files, Clog.restart s.log.handler.files s.checkPoint with
  | .error rc, _ => .error (.io rc)
  | _, .error rc => .error (.log (.recovery rc))
  | .ok dblwr, .ok (delivered, handler) =>
    .ok {
      log := .init handler.files handler.currentLsn
      phase := .recovering
      checkPoint := s.checkPoint
      recovered := handler.currentLsn
      redo := delivered
      frames _ := none
      waiting _ := none
      dblwr
      pending := []
      files := s.files }

/-- One action of the system. -/
def next : PageAction D → Except StoreFault (PageStore D)
  | .log (.append module data) => s.appendLog module data
  | .log (.thread breaksOff) => s.logThread breaksOff
  | .modify key data lsn => s.modify key data lsn
  | .getThisPage key => s.unlocked (s.getThisPage key)
  | .allocatePage key => s.allocatePage fmt key
  | .purgePage key => s.purgePage key
  | .waitLsn key => s.waitLsn key
  | .addPage key t => s.unlocked (s.addPage fmt maxPages key t)
  | .flushPage t => s.unlocked (.ok (s.writes (s.dblwr.flushPage t)))
  | .clearPages bufferPoolId t => s.unlocked (.ok (s.writes (s.dblwr.clearPages bufferPoolId t)))
  | .write => s.write fmt
  | .checkPoint lsn => s.setCheckPoint lsn
  | .stop => if s.phase = .running then .ok { s with phase := .stopped } else .error .blocked
  | .restart => s.restart fmt
  | .start => if s.phase = .recovering then .ok { s with phase := .running } else .error .blocked

def step (a : PageAction D) : Except StoreFault (Unit × PageStore D) := do
  let s ← s.next fmt maxPages a
  return ((), s)

end Step

/-! ## What the log is for -/

section Spec

variable (s : PageStore D)

/-- The page is in the double write file or in a data file. -/
def OnDisk (page : Page D) : Prop :=
  (∃ i p, s.files.slots i = some p ∧ p.page = page) ∨ ∃ key, s.files.data key = some page

/-- The LSN of the last entry that was written. -/
def durableLsn : Int := (s.log.written.getLast?.map LogEntry.lsn).getD s.recovered

/-- No page on the disk is ahead of the log, and after a crash the first LSN that is handed out is behind
    that of every page on the disk. -/
structure WrittenAhead : Prop where
  durable : ∀ page, s.OnDisk page → page.lsn ≤ s.durableLsn
  restarted : ∀ delivered handler, Clog.restart s.log.handler.files s.checkPoint = .ok (delivered, handler) →
    ∀ module data handler', handler.append module data = (.success, handler') →
      ∀ page, s.OnDisk page → page.lsn < handler'.currentLsn

/-- No write of a log entry breaks off half way, no page is changed while it is waited for its LSN, and no
    wait fails after `stop`. -/
def Careful : PageAction D → Prop
  | .log a => LogEntryBuffer.WritesWhole a
  | .modify key _ _ => s.waiting key = none
  | .addPage key _ => s.phase = .stopped → ∀ lsn, s.waiting key = some lsn → lsn ≤ s.flushedLsn
  | _ => True

end Spec

end PageStore

/-! ## What holds of all pages -/

section AllPages

open DiskDoubleWriteBuffer

variable {fmt : PageFormat D} {P Q : Page D → Prop} {b : DiskDoubleWriteBuffer D} {ws : List (Write D)}
  {files : Files D}

/-- The property holds of the page that is written. -/
def Write.Carries (P : Page D → Prop) : Write D → Prop
  | .header _ => True
  | .slot p => P p.page
  | .data _ page => P page

/-- The property holds of all pages that have left the frames. -/
structure AllPages (P : Page D → Prop) (b : DiskDoubleWriteBuffer D) (ws : List (Write D)) (files : Files D) :
    Prop where
  buffer : ∀ p ∈ b.pages, P p.page
  pending : ∀ w ∈ ws, w.Carries P
  slots : ∀ i p, files.slots i = some p → P p.page
  data : ∀ key page, files.data key = some page → P page

theorem Write.Carries.mono (himp : ∀ page, P page → Q page) {w : Write D} (h : w.Carries P) : w.Carries Q := by
  cases w with
  | header pageCnt => exact trivial
  | slot p => exact himp _ h
  | data key page => exact himp _ h

theorem AllPages.mono (himp : ∀ page, P page → Q page) (h : AllPages P b ws files) : AllPages Q b ws files where
  buffer := fun p hp => himp _ (h.buffer p hp)
  pending := fun w hw => (h.pending w hw).mono himp
  slots := fun i p hp => himp _ (h.slots i p hp)
  data := fun key page hpage => himp _ (h.data key page hpage)

/-- The writes of a list of pages, valid or not. -/
theorem carries_flushWrites : ∀ {ps : List (DoubleWritePage D)}, (∀ p ∈ ps, P p.page) →
    ∀ w ∈ flushWrites ps, w.Carries P
  | [], _, _, hw => absurd hw List.not_mem_nil
  | p :: ps, hps, w, hw => by
    have hp : P p.page := hps p List.mem_cons_self
    have hrest : ∀ w ∈ flushWrites ps, w.Carries P :=
      carries_flushWrites fun q hq => hps q (List.mem_cons_of_mem p hq)
    rw [flushWrites, List.mem_append] at hw
    rcases hw with hw | hw
    · split at hw
      · obtain rfl := List.mem_singleton.mp hw
        exact hp
      · cases hw
    · rcases List.mem_cons.mp hw with rfl | hw
      · exact hp
      · exact hrest w hw

/-- What is written when the buffer is cleared are its pages. -/
theorem carries_clearWrites : ∀ {ps : List (DoubleWritePage D)}, (∀ p ∈ ps, P p.page) →
    ∀ w ∈ clearWrites ps, w.Carries P
  | [], _, _, hw => absurd hw List.not_mem_nil
  | p :: ps, hps, w, hw => by
    have hp : P p.page := hps p List.mem_cons_self
    have hrest : ∀ w ∈ clearWrites ps, w.Carries P :=
      carries_clearWrites fun q hq => hps q (List.mem_cons_of_mem p hq)
    rw [clearWrites] at hw
    rcases List.mem_cons.mp hw with rfl | hw
    · exact hp
    · rcases List.mem_cons.mp hw with rfl | hw
      · exact hp
      · exact hrest w hw

theorem AllPages.flushPage (h : AllPages P b ws files) (t : Traversal D) :
    AllPages P (b.flushPage t).1 (b.flushPage t).2 files where
  buffer := fun _ hp => absurd hp List.not_mem_nil
  pending := carries_flushWrites fun p hp => h.buffer p ((t.perm b.pages).mem_iff.mp hp)
  slots := h.slots
  data := h.data

/-- Clearing the buffer brings in no page. -/
theorem AllPages.clearPages (h : AllPages P b ws files) (bufferPoolId : Int) (t : Traversal D) :
    AllPages P (b.clearPages bufferPoolId t).1 (b.clearPages bufferPoolId t).2 files where
  buffer := fun p hp => h.buffer p (List.mem_filter.mp hp).1
  pending := carries_clearWrites fun p hp => by
    have hmem : p ∈ (t.order b.pages).filter fun p => p.key.bufferPoolId = bufferPoolId :=
      List.mem_mergeSort.mp hp
    exact h.buffer p ((t.perm b.pages).mem_iff.mp (List.mem_filter.mp hmem).1)
  slots := h.slots
  data := h.data

/-- Adding a page brings in this one only. -/
theorem AllPages.addPage (h : AllPages P b ws files) (maxPages : Nat) (key : DoubleWritePageKey) (page : Page D)
    (hpage : P page) (t : Traversal D) :
    AllPages P (b.addPage maxPages key page t).1 (b.addPage maxPages key page t).2 files := by
  unfold DiskDoubleWriteBuffer.addPage
  cases hfind : b.find key with
  | some p =>
    refine ⟨fun q hq => ?_, fun w hw => ?_, h.slots, h.data⟩
    · obtain ⟨q₀, hq₀, rfl⟩ := List.mem_map.mp hq
      split
      · exact hpage
      · exact h.buffer q₀ hq₀
    · obtain rfl := List.mem_singleton.mp hw
      exact hpage
  | none =>
    have hpages : ∀ p ∈ b.pages ++ [⟨key, b.pages.length, true, page⟩], P p.page := by
      intro p hp
      rcases List.mem_append.mp hp with hp | hp
      · exact h.buffer p hp
      · obtain rfl := List.mem_singleton.mp hp
        exact hpage
    have hslot : ∀ w ∈ Write.slot ⟨key, b.pages.length, true, page⟩ ::
        (if b.pages.length + 1 > b.pageCnt then [Write.header (b.pages.length + 1)] else []), w.Carries P := by
      intro w hw
      rcases List.mem_cons.mp hw with rfl | hw
      · exact hpage
      · split at hw
        · obtain rfl := List.mem_singleton.mp hw
          exact trivial
        · cases hw
    dsimp only
    split
    · refine ⟨fun _ hp => absurd hp List.not_mem_nil, fun w hw => ?_, h.slots, h.data⟩
      rcases List.mem_append.mp hw with hw | hw
      · exact hslot w hw
      · exact carries_flushWrites (fun p hp => hpages p ((t.perm _).mem_iff.mp hp)) w hw
    · exact ⟨hpages, hslot, h.slots, h.data⟩

/-- One write; the hole it may leave holds pages of zeros. -/
theorem AllPages.write {w : Write D} (h : AllPages P b (w :: ws) files) (hzero : P fmt.zeroPage) :
    AllPages P b ws (files.write fmt w) := by
  have hw : w.Carries P := h.pending w List.mem_cons_self
  have hws : ∀ w ∈ ws, w.Carries P := fun w' hw' => h.pending w' (List.mem_cons_of_mem w hw')
  cases w with
  | header pageCnt => exact ⟨h.buffer, hws, h.slots, h.data⟩
  | slot p =>
    refine ⟨h.buffer, hws, fun i q hq => ?_, h.data⟩
    change (if i = p.pageIndex then some p else files.slots i) = some q at hq
    split at hq
    · obtain rfl := Option.some.inj hq
      exact hw
    · exact h.slots i q hq
  | data key page =>
    refine ⟨h.buffer, hws, h.slots, fun k x hx => ?_⟩
    change writeData fmt files.data key page k = some x at hx
    unfold writeData at hx
    split at hx
    · obtain rfl := Option.some.inj hx
      exact hw
    · split at hx
      · obtain rfl := Option.some.inj hx
        exact hzero
      · exact h.data k x hx

/-- What is loaded from the file is what it holds. -/
theorem mem_loadSlots {slots : Nat → Option (DoubleWritePage D)} (h : ∀ i p, slots i = some p → P p.page) :
    ∀ {n : Nat} {pages : List (DoubleWritePage D)}, loadSlots fmt slots n = .ok pages → ∀ p ∈ pages, P p.page
  | 0, _, hload, p, hp => by
    obtain rfl := Except.ok.inj hload
    exact absurd hp List.not_mem_nil
  | n + 1, _, hload, p, hp => by
    obtain ⟨pages, hrest, hload⟩ := ok_of_bind hload
    have hpages := mem_loadSlots h hrest
    cases hslot : slots n with
    | none =>
      rw [hslot] at hload
      cases hload
    | some q =>
      rw [hslot] at hload
      dsimp only at hload
      split at hload
      · split at hload
        · obtain rfl := Except.ok.inj hload
          exact hpages p hp
        · obtain rfl := Except.ok.inj hload
          rcases List.mem_append.mp hp with hp | hp
          · exact hpages p hp
          · obtain rfl := List.mem_singleton.mp hp
            exact h n _ hslot
      · obtain rfl := Except.ok.inj hload
        exact hpages p hp

/-- A new process knows the pages of the slots. -/
theorem AllPages.load (h : AllPages P b ws files) {b' : DiskDoubleWriteBuffer D}
    (hload : loadPages fmt files = .ok b') : AllPages P b' [] files := by
  obtain ⟨pages, hpages, hok⟩ := ok_of_bind hload
  obtain rfl := Except.ok.inj hok
  exact ⟨mem_loadSlots h.slots hpages, fun _ hw => absurd hw List.not_mem_nil, h.slots, h.data⟩

/-- What is read is a page that has left the frames. -/
theorem AllPages.readPage (h : AllPages P b ws files) {key : DoubleWritePageKey} {page : Page D}
    (hread : b.readPage key = .ok page) : P page := by
  unfold DiskDoubleWriteBuffer.readPage at hread
  cases hfind : b.find key with
  | none =>
    rw [hfind] at hread
    cases hread
  | some p =>
    rw [hfind] at hread
    obtain rfl := Except.ok.inj hread
    exact h.buffer p (find_some hfind).1

end AllPages

/-! ## The invariant -/

namespace PageStore

/-- What has left the frames is not ahead of the log, and what is waited for is enough for the page. -/
structure Ahead (s : PageStore D) : Prop where
  /-- The log has whole entries only. -/
  log : ∃ written, s.log.Sealed written
  /-- The log counts them. -/
  kept : ∃ files, LogEntryBuffer.Kept files s.recovered s.log
  /-- A page that has left the frames is on disk in the log. -/
  pages : AllPages (fun page => page.lsn ≤ s.flushedLsn) s.dblwr s.pending s.files
  /-- A page in a frame has an LSN that has been given. -/
  frames : ∀ key frame, s.frames key = some frame → frame.page.lsn ≤ s.log.handler.currentLsn
  /-- Who waits for an LSN waits for one that covers the page. -/
  waiting : ∀ key frame lsn, s.frames key = some frame → s.waiting key = some lsn →
    frame.page.lsn ≤ max lsn s.flushedLsn
  /-- While the log is replayed, all of it is on disk. -/
  recovering : s.phase = .recovering → s.log.handler.currentLsn = s.flushedLsn
  /-- The entries to replay are on disk. -/
  redo : ∀ e ∈ s.redo, e.lsn ≤ s.flushedLsn
  /-- So is the check point. -/
  checkPoint : s.checkPoint ≤ s.flushedLsn

section Step

variable {fmt : PageFormat D} {maxPages : Nat} {s s' : PageStore D} {key : DoubleWritePageKey}

/-- There is no page yet, so none is ahead of the log. -/
theorem ahead_empty : Ahead (empty : PageStore D) where
  log := ⟨[], LogEntryBuffer.sealed_init⟩
  kept := ⟨[], LogEntryBuffer.kept_init [] 0⟩
  pages := by
    refine ⟨fun _ hp => absurd hp List.not_mem_nil, fun _ hw => absurd hw List.not_mem_nil, ?_, ?_⟩
    · intro _ _ h
      cases h
    · intro _ _ h
      cases h
  frames := by
    intro _ _ h
    cases h
  waiting := by
    intro _ _ _ h
    cases h
  recovering := fun _ => rfl
  redo := fun _ he => absurd he List.not_mem_nil
  checkPoint := Int.le_refl 0

theorem Ahead.nonneg (h : Ahead s) : 0 ≤ s.flushedLsn := by
  obtain ⟨written, hsealed⟩ := h.log
  rw [flushedLsn, hsealed.flushed]
  exact Int.natCast_nonneg _

theorem Ahead.flushed_le (h : Ahead s) : s.flushedLsn ≤ s.log.handler.currentLsn := by
  obtain ⟨files, hkept⟩ := h.kept
  exact hkept.flushed_le_current

/-- A step of the log. -/
theorem Ahead.setLog (h : Ahead s) {a : Clog.BufferAction} {log : LogEntryBuffer}
    (ha : LogEntryBuffer.WritesWhole a) (hs : s.log.step a = .ok log) (hphase : s.phase ≠ .recovering) :
    Ahead { s with log } := by
  obtain ⟨written, hsealed⟩ := h.log
  obtain ⟨files, hkept⟩ := h.kept
  obtain ⟨written', hsealed', -⟩ := hsealed.step ha hs
  obtain ⟨hkept', hflushed⟩ := hkept.step hs
  have hcurrent := hkept.current_le hs
  exact {
    log := ⟨written', hsealed'⟩
    kept := ⟨files, hkept'⟩
    pages := h.pages.mono fun _ hpage => Int.le_trans hpage hflushed
    frames := fun key frame hframe => Int.le_trans (h.frames key frame hframe) hcurrent
    waiting := by
      intro key frame lsn hframe hlsn
      have := h.waiting key frame lsn hframe hlsn
      have hle : s.flushedLsn ≤ flushedLsn { s with log } := hflushed
      omega
    recovering := fun hrec => absurd hrec hphase
    redo := fun e he => Int.le_trans (h.redo e he) hflushed
    checkPoint := Int.le_trans h.checkPoint hflushed }

/-- A frame is the one that was put there, or was there before. -/
theorem setFrame_cases {frame : Option (CachedPage D)} {k : DoubleWritePageKey} {f : CachedPage D}
    (hf : (s.setFrame key frame).frames k = some f) : (k = key ∧ frame = some f) ∨ s.frames k = some f := by
  change Function.update s.frames key frame k = some f at hf
  rw [Function.update_apply] at hf
  split at hf
  · rename_i hk
    exact Or.inl ⟨hk, hf⟩
  · exact Or.inr hf

/-- A page comes into its frame, or is changed there. -/
theorem Ahead.setFrame (h : Ahead s) {frame : CachedPage D} (hlsn : frame.page.lsn ≤ s.log.handler.currentLsn)
    (hwait : s.waiting key = none ∨ frame.page.lsn ≤ s.flushedLsn) : Ahead (s.setFrame key (some frame)) :=
  { h with
    frames := by
      intro k f hf
      rcases setFrame_cases hf with ⟨rfl, heq⟩ | hf
      · obtain rfl := Option.some.inj heq
        exact hlsn
      · exact h.frames k f hf
    waiting := by
      intro k f lsn hf hl
      rcases setFrame_cases hf with ⟨rfl, heq⟩ | hf
      · obtain rfl := Option.some.inj heq
        rcases hwait with hnone | hle
        · rw [show (s.setFrame k (some frame)).waiting k = s.waiting k from rfl, hnone] at hl
          cases hl
        · exact Int.le_trans hle (Int.le_max_right _ _)
      · exact h.waiting k f lsn hf hl }

/-- A page that has left the frames comes back. -/
theorem Ahead.load (h : Ahead s) (key : DoubleWritePageKey) (page : Page D) (hpage : page.lsn ≤ s.flushedLsn) :
    Ahead (s.setFrame key (some ⟨page, false⟩)) :=
  h.setFrame (Int.le_trans hpage h.flushed_le) (Or.inr hpage)

/-- The LSN of the change has been handed out, and nobody is waiting for an older one. -/
theorem Ahead.modify (h : Ahead s) {data : D} {lsn : Int} (hwait : s.waiting key = none)
    (hs : s.modify key data lsn = .ok s') : Ahead s' := by
  unfold PageStore.modify at hs
  split at hs
  · cases hs
  split at hs
  · rename_i frame hframe hentry
    cases hs
    obtain ⟨e, he, hlsn⟩ := List.any_eq_true.mp hentry
    obtain rfl := of_decide_eq_true hlsn
    obtain ⟨files, hkept⟩ := h.kept
    refine h.setFrame ?_ (Or.inl hwait)
    rcases List.mem_append.mp he with he | he
    · exact Int.le_trans (h.redo e he) h.flushed_le
    · exact hkept.lsn_le he
  · cases hs

/-- A page that is read has an LSN that was on disk. -/
theorem Ahead.getThisPage (h : Ahead s) (hs : s.getThisPage key = .ok s') : Ahead s' := by
  unfold PageStore.getThisPage at hs
  split at hs
  · cases hs
    exact h
  split at hs
  · rename_i hread
    cases hs
    exact h.load key _ (h.pages.readPage hread)
  split at hs
  · rename_i hdata
    cases hs
    exact h.load key _ (h.pages.data _ _ hdata)
  · cases hs

theorem Ahead.allocatePage (h : Ahead s) (hs : s.allocatePage fmt key = .ok s') : Ahead s' := by
  unfold PageStore.allocatePage at hs
  split at hs
  · cases hs
  · cases hs
    exact h.load key _ h.nonneg

/-- A page that is purged has been flushed. -/
theorem Ahead.purgePage (h : Ahead s) (hs : s.purgePage key = .ok s') : Ahead s' := by
  unfold PageStore.purgePage at hs
  split at hs
  · cases hs
    exact h
  split at hs
  · cases hs
  · cases hs
    have hstays : ∀ k f, (s.setFrame key none).frames k = some f → s.frames k = some f := by
      intro k f hf
      rcases setFrame_cases hf with ⟨-, hnone⟩ | hf
      · cases hnone
      · exact hf
    exact { h with
      frames := fun k f hf => h.frames k f (hstays k f hf)
      waiting := fun k f lsn hf => h.waiting k f lsn (hstays k f hf) }

/-- Once the wait is over the log has the LSN of the page. -/
theorem Ahead.waitLsn (h : Ahead s) (hs : s.waitLsn key = .ok s') : Ahead s' := by
  unfold PageStore.waitLsn at hs
  split at hs
  · cases hs
  · rename_i frame hframe
    cases hs
    refine { h with waiting := ?_ }
    intro k f lsn hf hl
    change Function.update s.waiting key (some frame.page.lsn) k = some lsn at hl
    rw [Function.update_apply] at hl
    split at hl
    · rename_i hk
      subst hk
      obtain rfl := Option.some.inj hl
      obtain rfl := Option.some.inj (hframe.symm.trans hf)
      exact Int.le_max_left _ _
    · exact h.waiting k f lsn hf hl

/-- A page whose LSN was waited for is flushed, whether the wait has failed or not. -/
theorem Ahead.addPage (h : Ahead s) {t : Traversal D}
    (hcareful : s.phase = .stopped → ∀ lsn, s.waiting key = some lsn → lsn ≤ s.flushedLsn)
    (hs : s.addPage fmt maxPages key t = .ok s') : Ahead s' := by
  unfold PageStore.addPage at hs
  split at hs
  · rename_i frame lsn hframe hlsn
    split at hs
    · cases hs
    rename_i hblocked
    cases hs
    have hpage : frame.page.lsn ≤ s.flushedLsn := by
      have hcurrent := h.frames key frame hframe
      have hmax := h.waiting key frame lsn hframe hlsn
      cases hphase : s.phase with
      | recovering =>
        -- everything was read from the log
        rw [h.recovering hphase] at hcurrent
        exact hcurrent
      | running =>
        have hle : ¬ s.flushedLsn < lsn := fun hlt => hblocked ⟨hphase, hlt⟩
        omega
      | stopped =>
        have hle := hcareful hphase lsn hlsn
        omega
    have hframe' := h.load key { frame.page with checkSum := fmt.crc32 frame.page.data } hpage
    exact { hframe' with
      pages := h.pages.addPage maxPages key { frame.page with checkSum := fmt.crc32 frame.page.data } hpage t
      waiting := by
        intro k f lsn hf hl
        refine hframe'.waiting k f lsn hf ?_
        change Function.update s.waiting key none k = some lsn at hl
        rw [Function.update_apply] at hl
        split at hl
        · cases hl
        · exact hl }
  · cases hs

/-- The log is read to its end, which is not below any page on disk. -/
theorem Ahead.restart (h : Ahead s) (hs : s.restart fmt = .ok s') : Ahead s' := by
  obtain ⟨written, hsealed⟩ := h.log
  obtain ⟨hrestart, hinit⟩ := hsealed.restart h.checkPoint
  unfold PageStore.restart at hs
  rw [hrestart] at hs
  split at hs
  · cases hs
  · cases hs
  rename_i dblwr delivered handler hload heq
  obtain ⟨rfl, rfl⟩ := Prod.mk.inj (Except.ok.inj heq)
  cases hs
  have hflushed : s.flushedLsn = written.flatten.length := hsealed.flushed
  refine {
    log := ⟨written, hinit⟩
    kept := ⟨s.log.handler.files, LogEntryBuffer.kept_init _ _⟩
    pages := ?_
    frames := ?_
    waiting := ?_
    recovering := fun _ => rfl
    redo := ?_
    checkPoint := ?_ }
  · refine (h.pages.load hload).mono fun page hpage => ?_
    rw [hflushed] at hpage
    exact hpage
  · intro _ _ hf
    cases hf
  · intro _ _ _ hf
    cases hf
  · intro e he
    have hnum : Numbered written.flatten := hsealed.whole.numbered.of_prefix (List.prefix_append _ _)
    obtain ⟨i, hi, hget⟩ := List.getElem_of_mem (List.mem_filter.mp he).1
    have hlsn := hnum i e (List.getElem?_eq_some_iff.mpr ⟨hi, hget⟩)
    show e.lsn ≤ (written.flatten.length : Int)
    omega
  · have hcheck := h.checkPoint
    rw [hflushed] at hcheck
    exact hcheck

theorem of_unlocked {next : Except StoreFault (PageStore D)} (hs : s.unlocked next = .ok s') :
    next = .ok s' := by
  unfold unlocked at hs
  split at hs
  · exact hs
  · cases hs

/-- **Step.** -/
theorem Ahead.next (h : Ahead s) {a : PageAction D} (ha : s.Careful a) (hs : s.next fmt maxPages a = .ok s') :
    Ahead s' := by
  cases a with
  | log a =>
    cases a with
    | append module data =>
      change s.appendLog module data = .ok s' at hs
      unfold appendLog at hs
      split at hs
      · rename_i hrunning
        cases hs
        refine h.setLog (a := .append module data) ha rfl fun hrec => ?_
        rw [hrunning] at hrec
        cases hrec
      · cases hs
    | thread breaksOff =>
      change s.logThread breaksOff = .ok s' at hs
      unfold logThread at hs
      split at hs
      · cases hs
      rename_i hphase
      split at hs
      · cases hs
      · rename_i hnext
        cases hs
        exact h.setLog (a := .thread breaksOff) ha hnext hphase
  | modify key data lsn => exact h.modify ha hs
  | getThisPage key => exact h.getThisPage (of_unlocked hs)
  | allocatePage key => exact h.allocatePage hs
  | purgePage key => exact h.purgePage hs
  | waitLsn key => exact h.waitLsn hs
  | addPage key t => exact h.addPage ha (of_unlocked hs)
  | flushPage t =>
    cases of_unlocked hs
    exact { h with pages := h.pages.flushPage t }
  | clearPages bufferPoolId t =>
    cases of_unlocked hs
    exact { h with pages := h.pages.clearPages bufferPoolId t }
  | write =>
    change s.write fmt = .ok s' at hs
    unfold PageStore.write at hs
    split at hs
    · cases hs
    · rename_i hpending
      cases hs
      have hpages := h.pages
      rw [hpending] at hpages
      exact { h with pages := hpages.write h.nonneg }
  | checkPoint lsn =>
    change s.setCheckPoint lsn = .ok s' at hs
    unfold setCheckPoint at hs
    split at hs
    · rename_i hle
      cases hs
      exact { h with checkPoint := hle }
    · cases hs
  | stop =>
    change (if s.phase = .running then _ else _) = _ at hs
    split at hs
    · cases hs
      exact { h with recovering := fun hrec => LogPhase.noConfusion hrec }
    · cases hs
  | restart => exact h.restart hs
  | start =>
    change (if s.phase = .recovering then _ else _) = _ at hs
    split at hs
    · cases hs
      exact { h with recovering := fun hrec => LogPhase.noConfusion hrec }
    · cases hs

/-- Every page on the disk is one that has left the frames. -/
theorem Ahead.onDisk (h : Ahead s) {page : Page D} (hdisk : s.OnDisk page) : page.lsn ≤ s.flushedLsn := by
  rcases hdisk with ⟨i, p, hp, rfl⟩ | ⟨key, hpage⟩
  · exact h.pages.slots i p hp
  · exact h.pages.data key page hpage

/-- The invariant is what was to be shown, with what the induction needs besides. -/
theorem Ahead.writtenAhead (h : Ahead s) : s.WrittenAhead := by
  obtain ⟨written, hsealed⟩ := h.log
  obtain ⟨files, hkept⟩ := h.kept
  refine ⟨fun page hdisk => ?_, ?_⟩
  · have hdurable : s.flushedLsn = s.durableLsn := hkept.inOrder.flushed
    exact hdurable ▸ h.onDisk hdisk
  · intro delivered handler hrestart module data handler' happend page hdisk
    rw [(hsealed.restart h.checkPoint).1] at hrestart
    obtain ⟨-, rfl⟩ := Prod.mk.inj (Except.ok.inj hrestart)
    have hlsn : handler'.currentLsn = written.flatten.length + 1 := by
      unfold DiskLogHandler.append at happend
      split at happend
      · rename_i hinit
        obtain ⟨rfl, -⟩ := Prod.mk.inj happend
        unfold LogEntry.init at hinit
        split at hinit <;> cases hinit
      · obtain ⟨-, rfl⟩ := Prod.mk.inj happend
        rfl
    have hle := h.onDisk hdisk
    have hflushed : s.flushedLsn = written.flatten.length := hsealed.flushed
    omega

end Step

/-- Pages without data. -/
def blank : PageFormat Unit := ⟨fun _ => 0, ()⟩

/-- `RecordLogHandler::insert_record` for a row of four INT columns, behind the fields of transaction 1. -/
def insertPayload : List UInt8 :=
  int32sBytes ([1, 1, 1, 1, 0, 0] ++ [-1, 2147483647, 0, 0, 40, 0])

/-- `RecordLogHandler::delete_record`. -/
def deletePayload : List UInt8 := int32sBytes [1, 2, 1, 1, 0, 0]

end PageStore

end Miniob.Buffer
