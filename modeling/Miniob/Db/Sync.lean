/-
  The sync of a database (`Db::sync` in src/observer/storage/db/db.cpp, with the syncs of the tables and their
  indexes), on a disk whose writes may fail.

  1. Every table flushes the frames of its indexes and of its data file.  Each frame is handed to the double
     write buffer.  A tree whose file header has changed writes it to its header page before.  The first
     failure ends the sync.
  2. The double write buffer is flushed.  What it answers is overwritten in the next line.
  3. The sync waits for the current LSN, makes it the check point and writes it to the meta file.

  Where step 2 succeeds as well, every page is in its data file as it was seen before the sync.

  Left out: statements that run at the same time, and what a sync leaves in the frames.
-/
import Miniob.Buffer.WriteOutcomes

namespace Miniob.Sync

open Miniob.Common Miniob.Storage Miniob.Buffer

variable {D : Type}

/-! ## The code -/

/-- A buffer pool that is open, with its frames by page number, as `find_list` finds them. -/
structure BufferPool (D : Type) where
  id : Int
  frames : List (Nat × Page D)

inductive OpenedIndex (D : Type) where
  /-- With what `file_header_` makes of the header page, if `header_dirty_`. -/
  | bplusTree (pool : BufferPool D) (header : Option (D → D))
  | ivfflat

inductive OpenedTable (D : Type) where
  | table (indexes : List (OpenedIndex D)) (dataPool : BufferPool D)
  | view

structure LogState where
  running : Bool
  currentLsn : Int
  flushedLsn : Int

/-- What `Db::sync` changes: the disk, the double-write buffer and the log. -/
structure SyncState (D : Type) where
  log : LogState
  dblwr : DiskDoubleWriteBuffer D
  disk : Disk D
  /-- `check_point_lsn_`, and the one in the meta file. -/
  checkPoint : Int
  recorded : Int

/-- `wait_lsn`, if it comes back. -/
def LogState.waitLsn (log : LogState) (lsn : Int) : RC × LogState :=
  if log.flushedLsn ≥ lsn then (.success, log)
  else if log.running then (.success, { log with flushedLsn := lsn })
  else (.internal, log)

/-- A loop that returns at the first failure. -/
def untilFailure {A S : Type} (f : A → S → RC × S) : List A → S → RC × S
  | [], s => (.success, s)
  | a :: as, s =>
    let (rc, s) := f a s
    if rc ≠ .success then (rc, s) else untilFailure f as s

/-- `FIRST_INDEX_PAGE`. -/
def firstIndexPage : Nat := 1

/-- What is known of the disk, and of the tables. -/
structure SyncConfig (D : Type) where
  fmt : PageFormat D
  outcomes : Outcomes
  maxPages : Nat
  t : Traversal D
  /-- The meta file can be written. -/
  metaWritten : Bool

section Code

variable (cfg : SyncConfig D)

/-- A page below the frames. -/
def SyncState.stored (s : SyncState D) (key : DoubleWritePageKey) : Option (Page D) :=
  Buffer.stored s.dblwr s.disk.files key

/-- `flush_page` of a buffer pool. -/
def flushPage (id : Int) (frame : Nat × Page D) (s : SyncState D) : RC × SyncState D :=
  -- whether the wait has failed is not looked at
  let (_, log) := s.log.waitLsn frame.2.lsn
  let page := { frame.2 with checkSum := cfg.fmt.crc32 frame.2.data }
  let (rc, dblwr, disk) :=
    s.dblwr.addPageOn cfg.fmt cfg.outcomes cfg.maxPages cfg.t ⟨id, frame.1⟩ page s.disk
  (rc, { s with log, dblwr, disk })

def flushAllPages (pool : BufferPool D) : SyncState D → RC × SyncState D :=
  untilFailure (flushPage cfg pool.id) pool.frames

/-- `get_this_page`; the frame comes to the front. -/
def getThisPage (pool : BufferPool D) (pageNum : Nat) (s : SyncState D) : Option (Page D) :=
  match pool.frames.lookup pageNum with
  | some page => some page
  | none => s.stored ⟨pool.id, pageNum⟩

/-- The beginning of `BplusTreeHandler::sync`. -/
def writeHeader (pool : BufferPool D) (header : Option (D → D)) (s : SyncState D) : BufferPool D :=
  match header with
  | none => pool
  | some f =>
    match getThisPage pool firstIndexPage s with
    | none => pool
    | some page =>
      { pool with
        frames := (firstIndexPage, { page with data := f page.data }) ::
          pool.frames.filter fun frame => frame.1 ≠ firstIndexPage }

/-- `Index::sync`. -/
def syncIndex (index : OpenedIndex D) (s : SyncState D) : RC × SyncState D :=
  match index with
  | .bplusTree pool header => flushAllPages cfg (writeHeader pool header s) s
  | .ivfflat => (.unimplemented, s)

/-- `Table::sync`. -/
def syncTable (table : OpenedTable D) (s : SyncState D) : RC × SyncState D :=
  match table with
  | .view => (.success, s)
  | .table indexes dataPool =>
    let (rc, s) := untilFailure (syncIndex cfg) indexes s
    if rc ≠ .success then (rc, s) else flushAllPages cfg dataPool s

/-- `flush_meta`. -/
def flushMeta (s : SyncState D) : RC × SyncState D :=
  if cfg.metaWritten then (.success, { s with recorded := s.checkPoint }) else (.ioerrWrite, s)

/-- The end of `Db::sync`. -/
def setCheckPoint (s : SyncState D) : RC × SyncState D :=
  let currentLsn := s.log.currentLsn
  let (rc, log) := s.log.waitLsn currentLsn
  let s := { s with log }
  if rc ≠ .success then (rc, s) else flushMeta cfg { s with checkPoint := currentLsn }

/-- `flush_page` of the double write buffer. -/
def flushDoubleWrite (s : SyncState D) : RC × SyncState D :=
  let (rc, dblwr, disk) := s.dblwr.flushPageOn cfg.fmt cfg.outcomes cfg.t s.disk
  (rc, { s with dblwr, disk })

/-- `Db::sync`. -/
def sync (tables : List (OpenedTable D)) (s : SyncState D) : RC × SyncState D :=
  let (rc, s) := untilFailure (syncTable cfg) tables s
  if rc ≠ .success then (rc, s)
  else
    -- what this answers is overwritten
    let (_, s) := flushDoubleWrite cfg s
    setCheckPoint cfg s

end Code

/-! ## What is seen -/

/-- The pools of the tables, in the order in which they are flushed, with the header to be written. -/
def OpenedIndex.pools : OpenedIndex D → List (BufferPool D × Option (D → D))
  | .bplusTree pool header => [(pool, header)]
  | .ivfflat => []

def OpenedTable.pools : OpenedTable D → List (BufferPool D × Option (D → D))
  | .table indexes dataPool => indexes.flatMap OpenedIndex.pools ++ [(dataPool, none)]
  | .view => []

/-- Content of a page in the frames of a pool, or below. -/
def seenIn (id : Int) (frames : List (Nat × Page D)) (s : SyncState D) (key : DoubleWritePageKey) :
    Option (Int × D) :=
  match (if key.bufferPoolId = id then frames.lookup key.pageNum else none) with
  | some page => some page.content
  | none => (s.stored key).map Page.content

/-- Content of a page, the header of its pool written. -/
def seen : List (BufferPool D × Option (D → D)) → SyncState D → DoubleWritePageKey → Option (Int × D)
  | [], s, key => (s.stored key).map Page.content
  | (pool, header) :: pools, s, key =>
    if key.bufferPoolId = pool.id then seenIn pool.id (writeHeader pool header s).frames s key
    else seen pools s key

/-- No file is open twice, and no page is in two frames. -/
structure Apart (pools : List (BufferPool D × Option (D → D))) : Prop where
  ids : (pools.map fun p => p.1.id).Nodup
  frames : ∀ p ∈ pools, (p.1.frames.map Prod.fst).Nodup

/-! ## Loops -/

section Loop

variable {A S : Type} {f : A → S → RC × S}

/-- If the loop succeeds, so does its first step, and then the rest. -/
theorem untilFailure_cons {a : A} {as : List A} {s s' : S} (h : untilFailure f (a :: as) s = (.success, s')) :
    ∃ s₁, f a s = (.success, s₁) ∧ untilFailure f as s₁ = (.success, s') := by
  rw [untilFailure] at h
  cases hf : f a s with
  | mk rc s₁ =>
    rw [hf] at h
    dsimp only at h
    split at h
    · rename_i hrc
      exact absurd (Prod.mk.inj h).1 hrc
    · rename_i hrc
      rw [not_not.mp hrc]
      exact ⟨s₁, rfl, h⟩

/-- What every round does, whether it fails or not, the loop does. -/
theorem untilFailure_rel {R : S → S → Prop} (hrefl : ∀ s, R s s) (htrans : ∀ a b c, R a b → R b c → R a c)
    (hf : ∀ a s, R s (f a s).2) : ∀ as s, R s (untilFailure f as s).2
  | [], s => hrefl s
  | a :: as, s => by
    rw [untilFailure]
    have hfirst := hf a s
    cases hout : f a s with
    | mk rc s₁ =>
      rw [hout] at hfirst
      dsimp only
      split
      · exact hfirst
      · exact htrans _ _ _ hfirst (untilFailure_rel hrefl htrans hf as s₁)

end Loop

/-! ## What a sync leaves alone -/

/-- The current LSN and the check points are as before. -/
structure SameLog (s s' : SyncState D) : Prop where
  running : s'.log.running = s.log.running
  current : s'.log.currentLsn = s.log.currentLsn
  /-- With the flush thread stopped, nothing has been written to the log either. -/
  stopped : s.log.running = false → s'.log.flushedLsn = s.log.flushedLsn
  recorded : s'.recorded = s.recorded

section SameLog

variable {cfg : SyncConfig D} {s s' s'' : SyncState D}

theorem SameLog.refl (s : SyncState D) : SameLog s s := ⟨rfl, rfl, fun _ => rfl, rfl⟩

theorem SameLog.trans (h : SameLog s s') (h' : SameLog s' s'') : SameLog s s'' where
  running := h'.running.trans h.running
  current := h'.current.trans h.current
  stopped hstop := (h'.stopped (h.running.trans hstop)).trans (h.stopped hstop)
  recorded := h'.recorded.trans h.recorded

/-- Waiting never hands out an LSN, and flushes nothing once the thread has stopped. -/
theorem waitLsn_same (log : LogState) (lsn : Int) : (log.waitLsn lsn).2.running = log.running ∧
    (log.waitLsn lsn).2.currentLsn = log.currentLsn ∧
    (log.running = false → (log.waitLsn lsn).2.flushedLsn = log.flushedLsn) := by
  unfold LogState.waitLsn
  split
  · exact ⟨rfl, rfl, fun _ => rfl⟩
  · split
    · rename_i hrunning
      exact ⟨rfl, rfl, fun hstop => Bool.noConfusion (hrunning.symm.trans hstop)⟩
    · exact ⟨rfl, rfl, fun _ => rfl⟩

/-- The log is flushed up to there, or will be. -/
theorem waitLsn_success_iff (log : LogState) (lsn : Int) :
    (log.waitLsn lsn).1 = .success ↔ log.running = true ∨ lsn ≤ log.flushedLsn := by
  unfold LogState.waitLsn
  split
  · rename_i hflushed
    exact iff_of_true rfl (Or.inr hflushed)
  · rename_i hless
    split
    · rename_i hrunning
      exact iff_of_true rfl (Or.inl hrunning)
    · rename_i hstop
      refine iff_of_false (fun hrc => RC.noConfusion hrc) ?_
      rintro (hrunning | hle)
      · exact hstop hrunning
      · exact hless hle

theorem sameLog_flushPage (id : Int) (frame : Nat × Page D) (s : SyncState D) :
    SameLog s (flushPage cfg id frame s).2 := by
  obtain ⟨hrunning, hcurrent, hstopped⟩ := waitLsn_same s.log frame.2.lsn
  exact ⟨hrunning, hcurrent, hstopped, rfl⟩

theorem sameLog_flushAllPages (pool : BufferPool D) (s : SyncState D) :
    SameLog s (flushAllPages cfg pool s).2 :=
  untilFailure_rel .refl (fun _ _ _ => .trans) (sameLog_flushPage pool.id) _ s

theorem sameLog_syncIndex (index : OpenedIndex D) (s : SyncState D) : SameLog s (syncIndex cfg index s).2 := by
  cases index with
  | bplusTree pool header => exact sameLog_flushAllPages _ s
  | ivfflat => exact .refl s

/-- Nor does the flushing of a table. -/
theorem sameLog_syncTable (table : OpenedTable D) (s : SyncState D) : SameLog s (syncTable cfg table s).2 := by
  cases table with
  | view => exact .refl s
  | table indexes dataPool =>
    have hindexes := untilFailure_rel .refl (fun _ _ _ => .trans) (@sameLog_syncIndex D cfg) indexes s
    unfold syncTable
    dsimp only
    split
    · exact hindexes
    · exact hindexes.trans (sameLog_flushAllPages dataPool _)

theorem sameLog_syncTables (tables : List (OpenedTable D)) (s : SyncState D) :
    SameLog s (untilFailure (syncTable cfg) tables s).2 :=
  untilFailure_rel .refl (fun _ _ _ => .trans) sameLog_syncTable tables s

end SameLog

/-! ## What the tables hand down -/

section Seen

variable {s s₁ : SyncState D} {pools pools' : List (BufferPool D × Option (D → D))} {key : DoubleWritePageKey}

theorem seen_of_not_mem (h : ∀ p ∈ pools, p.1.id ≠ key.bufferPoolId) :
    seen pools s key = (s.stored key).map Page.content := by
  induction pools with
  | nil => rfl
  | cons p pools ih =>
    rw [seen, if_neg fun heq => h p List.mem_cons_self heq.symm]
    exact ih fun q hq => h q (List.mem_cons_of_mem p hq)

/-- A pool is found among those in front, whatever is behind them. -/
theorem seen_append_left (h : ∃ p ∈ pools, p.1.id = key.bufferPoolId) :
    seen (pools ++ pools') s key = seen pools s key := by
  induction pools with
  | nil =>
    obtain ⟨p, hp, -⟩ := h
    cases hp
  | cons p pools ih =>
    rw [List.cons_append, seen, seen]
    by_cases hid : key.bufferPoolId = p.1.id
    · rw [if_pos hid, if_pos hid]
    · rw [if_neg hid, if_neg hid]
      obtain ⟨q, hq, heq⟩ := h
      rcases List.mem_cons.mp hq with rfl | hq
      · exact absurd heq.symm hid
      · exact ih ⟨q, hq, heq⟩

theorem seen_append_right (h : ∀ p ∈ pools, p.1.id ≠ key.bufferPoolId) :
    seen (pools ++ pools') s key = seen pools' s key := by
  induction pools with
  | nil => rfl
  | cons p pools ih =>
    rw [List.cons_append, seen, if_neg fun heq => h p List.mem_cons_self heq.symm]
    exact ih fun q hq => h q (List.mem_cons_of_mem p hq)

/-- What was below the frames of a pool is still there. -/
def Stays (id : Int) (s s₁ : SyncState D) : Prop :=
  ∀ key : DoubleWritePageKey, key.bufferPoolId = id → ∀ c, (s.stored key).map Page.content = some c →
    (s₁.stored key).map Page.content = some c

/-- The header is written to its own page only. -/
theorem lookup_header {frames : List (Nat × Page D)} {page : Page D} {n : Nat} :
    ((firstIndexPage, page) :: frames.filter fun frame => frame.1 ≠ firstIndexPage).lookup n
      = if n = firstIndexPage then some page else frames.lookup n := by
  rw [List.lookup_cons]
  by_cases hn : n = firstIndexPage
  · rw [if_pos hn, beq_iff_eq.mpr hn]
  · rw [if_neg hn, beq_eq_false_iff_ne.mpr hn]
    dsimp only
    induction frames with
    | nil => rfl
    | cons frame frames ih =>
      by_cases hframe : frame.1 = firstIndexPage
      · rw [List.filter_cons_of_neg (by simpa using hframe), ih, List.lookup_cons,
          beq_eq_false_iff_ne.mpr fun heq => hn (heq.trans hframe)]
      · rw [List.filter_cons_of_pos (by simpa using hframe), List.lookup_cons, List.lookup_cons, ih]

/-- A page that is in a frame, or was below the frames and is still there. -/
theorem seenIn_stays {id : Int} {frames frames' : List (Nat × Page D)} (hstays : Stays id s s₁)
    (hid : key.bufferPoolId = id) (hlookup : frames'.lookup key.pageNum = frames.lookup key.pageNum) {c : Int × D}
    (h : seenIn id frames s key = some c) : seenIn id frames' s₁ key = some c := by
  unfold seenIn at h ⊢
  rw [if_pos hid] at h ⊢
  rw [hlookup]
  cases hframe : frames.lookup key.pageNum with
  | some page =>
    rw [hframe] at h
    exact h
  | none =>
    rw [hframe] at h
    exact hstays key hid c h

theorem seenIn_of_frame {id : Int} {frames : List (Nat × Page D)} (hid : key.bufferPoolId = id) {page : Page D}
    (h : frames.lookup key.pageNum = some page) : seenIn id frames s key = some page.content := by
  unfold seenIn
  rw [if_pos hid, h]

/-- The header page may be read later as well. -/
theorem seenIn_writeHeader_stays {pool : BufferPool D} (header : Option (D → D)) (hstays : Stays pool.id s s₁)
    (hid : key.bufferPoolId = pool.id) {c : Int × D}
    (h : seenIn pool.id (writeHeader pool header s).frames s key = some c) :
    seenIn pool.id (writeHeader pool header s₁).frames s₁ key = some c := by
  unfold writeHeader at h ⊢
  cases header with
  -- the header page is taken from the frames, else from what is stored, else it is not there
  | none => exact seenIn_stays hstays hid rfl h
  | some f =>
    unfold getThisPage at h ⊢
    dsimp only at h ⊢
    cases hframe : pool.frames.lookup firstIndexPage with
    | some page =>
      rw [hframe] at h
      exact seenIn_stays hstays hid rfl h
    | none =>
      rw [hframe] at h
      dsimp only at h ⊢
      cases hstored : s.stored ⟨pool.id, firstIndexPage⟩ with
      | some page =>
        rw [hstored] at h
        obtain ⟨page₁, hstored₁, hcontent⟩ := Option.map_eq_some_iff.mp
          (hstays ⟨pool.id, firstIndexPage⟩ rfl page.content (by rw [hstored]; rfl))
        obtain ⟨hlsn, hdata⟩ := Prod.mk.inj hcontent
        rw [hstored₁]
        -- the page of the header itself, and then every other page
        by_cases hn : key.pageNum = firstIndexPage
        · rw [seenIn_of_frame hid (by rw [lookup_header, if_pos hn])] at h ⊢
          rw [← h]
          show some (page₁.lsn, f page₁.data) = some (page.lsn, f page.data)
          rw [hlsn, hdata]
        · refine seenIn_stays hstays hid ?_ h
          rw [lookup_header, lookup_header, if_neg hn, if_neg hn]
      | none =>
        rw [hstored] at h
        dsimp only at h
        cases s₁.stored ⟨pool.id, firstIndexPage⟩ with
        | none => exact seenIn_stays hstays hid rfl h
        | some page₁ =>
          by_cases hn : key.pageNum = firstIndexPage
          · -- the page was nowhere
            have hkey : key = ⟨pool.id, firstIndexPage⟩ := by
              cases key
              cases hid
              cases hn
              rfl
            unfold seenIn at h
            rw [if_pos hid, hn, hframe, hkey] at h
            dsimp only at h
            rw [hstored] at h
            cases h
          · refine seenIn_stays hstays hid ?_ h
            rw [lookup_header, if_neg hn]

/-- What was seen below the frames of the pools is still seen. -/
theorem seen_stays (hstays : ∀ p ∈ pools, Stays p.1.id s s₁) {p : BufferPool D × Option (D → D)} (hp : p ∈ pools)
    (hid : p.1.id = key.bufferPoolId) {c : Int × D} (h : seen pools s key = some c) :
    seen pools s₁ key = some c := by
  induction pools with
  | nil => cases hp
  | cons q pools ih =>
    rw [seen] at h ⊢
    split at h
    · rename_i hq
      rw [if_pos hq]
      exact seenIn_writeHeader_stays q.2 (hstays q List.mem_cons_self) hq h
    · rename_i hq
      rw [if_neg hq]
      rcases List.mem_cons.mp hp with rfl | hp
      · exact absurd hid.symm hq
      · exact ih (fun r hr => hstays r (List.mem_cons_of_mem q hr)) hp h

/-- What was seen before is below the frames afterwards, and no page was lost. -/
structure HandedDown (pools : List (BufferPool D × Option (D → D))) (s s' : SyncState D) : Prop where
  tidy : Tidy s'.dblwr
  seen : ∀ key c, seen pools s key = some c → (s'.stored key).map Page.content = some c
  noneLost : s.disk.NoneLost s'.disk

theorem HandedDown.nil (htidy : Tidy s.dblwr) : HandedDown [] s s :=
  ⟨htidy, fun _ _ h => h, .refl s.disk⟩

/-- Two groups of pools, one after the other, if they share no file. -/
theorem HandedDown.append {s' : SyncState D} (h : HandedDown pools s s₁) (h' : HandedDown pools' s₁ s')
    (hapart : Apart (pools ++ pools')) : HandedDown (pools ++ pools') s s' := by
  have hids := hapart.ids
  rw [List.map_append] at hids
  obtain ⟨-, -, hdisjoint⟩ := List.nodup_append.mp hids
  have hne : ∀ p ∈ pools, ∀ q ∈ pools', p.1.id ≠ q.1.id := fun p hp q hq =>
    hdisjoint _ (List.mem_map_of_mem (f := fun p => p.1.id) hp) _ (List.mem_map_of_mem (f := fun p => p.1.id) hq)
  refine ⟨h'.tidy, fun key c hc => ?_, h.noneLost.trans h'.noneLost⟩
  by_cases hkey : ∃ p ∈ pools, p.1.id = key.bufferPoolId
  · -- the page went down with the first pools
    rw [seen_append_left hkey] at hc
    obtain ⟨p, hp, hid⟩ := hkey
    refine h'.seen key c ?_
    rw [seen_of_not_mem fun q hq heq => hne p hp q hq (hid.trans heq.symm)]
    exact h.seen key c hc
  · have hnot : ∀ p ∈ pools, p.1.id ≠ key.bufferPoolId := fun p hp hid => hkey ⟨p, hp, hid⟩
    rw [seen_append_right hnot] at hc
    refine h'.seen key c ?_
    by_cases hkey' : ∃ q ∈ pools', q.1.id = key.bufferPoolId
    · obtain ⟨q, hq, hid⟩ := hkey'
      refine seen_stays (fun q hq k hk c' hc' => ?_) hq hid hc
      refine h.seen k c' ?_
      rw [seen_of_not_mem fun p hp heq => hne p hp q hq (heq.trans hk)]
      exact hc'
    · have hnot' : ∀ q ∈ pools', q.1.id ≠ key.bufferPoolId := fun q hq hid => hkey' ⟨q, hq, hid⟩
      rw [seen_of_not_mem hnot'] at hc ⊢
      refine h.seen key c ?_
      rw [seen_of_not_mem hnot]
      exact hc

end Seen

section HandDown

variable {cfg : SyncConfig D} {s s' : SyncState D}

/-- A page that is flushed is on disk, and no other page is lost. -/
theorem flushPage_success {id : Int} {frame : Nat × Page D} (htidy : Tidy s.dblwr)
    (h : flushPage cfg id frame s = (.success, s')) :
    Tidy s'.dblwr ∧ (s'.stored ⟨id, frame.1⟩).map Page.content = some frame.2.content ∧
      (∀ key ≠ (⟨id, frame.1⟩ : DoubleWritePageKey), ∀ page, s.stored key = some page →
        s'.stored key = some page) ∧ s.disk.NoneLost s'.disk := by
  unfold flushPage at h
  dsimp only at h
  obtain ⟨hrc, rfl⟩ := Prod.mk.inj h
  have hadd : ∀ out : RC × DiskDoubleWriteBuffer D × Disk D, out.1 = .success →
      out = (.success, out.2.1, out.2.2) := by
    intro out hout
    rw [← hout]
  have hout := hadd _ hrc
  obtain ⟨htidy', hpage, hothers⟩ := htidy.addPageOn hout
  obtain ⟨-, -, hlost⟩ := addPageOn_success hout
  refine ⟨htidy', ?_, hothers, hlost⟩
  show (Buffer.stored _ _ _).map Page.content = _
  rw [hpage]
  rfl

/-- **Run.** -/
theorem flushFrames_success {id : Int} : ∀ {frames : List (Nat × Page D)} {s s' : SyncState D},
    Tidy s.dblwr → (frames.map Prod.fst).Nodup → untilFailure (flushPage cfg id) frames s = (.success, s') →
      Tidy s'.dblwr ∧
      (∀ key c, seenIn id frames s key = some c → (s'.stored key).map Page.content = some c) ∧
      s.disk.NoneLost s'.disk
  | [], s, s', htidy, _, h => by
    obtain ⟨-, rfl⟩ := Prod.mk.inj h
    refine ⟨htidy, fun key c hc => ?_, .refl s.disk⟩
    unfold seenIn at hc
    rw [List.lookup_nil, ite_self] at hc
    exact hc
  | frame :: frames, s, s', htidy, hnodup, h => by
    obtain ⟨s₁, hfirst, hrest⟩ := untilFailure_cons h
    obtain ⟨htidy₁, hpage, hothers, hlost⟩ := flushPage_success htidy hfirst
    rw [List.map_cons, List.nodup_cons] at hnodup
    obtain ⟨htidy', hdown, hlost'⟩ := flushFrames_success htidy₁ hnodup.2 hrest
    refine ⟨htidy', fun key c hc => hdown key c ?_, hlost.trans hlost'⟩
    unfold seenIn at hc ⊢
    by_cases hkey : key = ⟨id, frame.1⟩
    · -- the page of this frame is in no other frame
      subst hkey
      have hnone : frames.lookup frame.1 = none := by
        rw [List.lookup_eq_none_iff]
        intro p hp
        rw [bne_iff_ne]
        intro heq
        exact hnodup.1 (heq ▸ List.mem_map_of_mem hp)
      rw [if_pos rfl, List.lookup_cons_self] at hc
      rw [if_pos rfl, hnone]
      exact hpage.trans hc
    · have hlookup : (if key.bufferPoolId = id then (frame :: frames).lookup key.pageNum else none)
          = if key.bufferPoolId = id then frames.lookup key.pageNum else none := by
        split
        · rename_i hid
          have hne : key.pageNum ≠ frame.1 := by
            intro heq
            refine hkey ?_
            cases key
            cases hid
            cases heq
            rfl
          rw [List.lookup_cons, beq_eq_false_iff_ne.mpr hne]
        · rfl
      rw [hlookup] at hc
      cases hframe : (if key.bufferPoolId = id then frames.lookup key.pageNum else none) with
      | some page =>
        rw [hframe] at hc
        exact hc
      | none =>
        rw [hframe] at hc
        obtain ⟨page, hstored, hcontent⟩ := Option.map_eq_some_iff.mp hc
        show (s₁.stored key).map Page.content = some c
        rw [hothers key hkey page hstored]
        exact congrArg some hcontent

/-- There is still one frame for each page. -/
theorem nodup_writeHeader {pool : BufferPool D} (hnodup : (pool.frames.map Prod.fst).Nodup)
    (header : Option (D → D)) (s : SyncState D) :
    ((writeHeader pool header s).frames.map Prod.fst).Nodup := by
  unfold writeHeader
  split
  · exact hnodup
  · split
    · exact hnodup
    · show (List.map Prod.fst ((firstIndexPage, _) :: _)).Nodup
      rw [List.map_cons, List.nodup_cons]
      refine ⟨fun hmem => ?_, hnodup.sublist (List.filter_sublist.map _)⟩
      obtain ⟨frame, hframe, heq⟩ := List.mem_map.mp hmem
      exact of_decide_eq_true (List.mem_filter.mp hframe).2 heq

theorem id_writeHeader (pool : BufferPool D) (header : Option (D → D)) (s : SyncState D) :
    (writeHeader pool header s).id = pool.id := by
  unfold writeHeader
  split
  · rfl
  · split <;> rfl

/-- A pool that is flushed without an error is on disk. -/
theorem flushPool_success {pool : BufferPool D} {header : Option (D → D)} (htidy : Tidy s.dblwr)
    (hapart : Apart [(pool, header)])
    (h : flushAllPages cfg (writeHeader pool header s) s = (.success, s')) :
    HandedDown [(pool, header)] s s' := by
  unfold flushAllPages at h
  rw [id_writeHeader] at h
  have hnodup := nodup_writeHeader (hapart.frames _ (List.mem_singleton_self _)) header s
  obtain ⟨htidy', hdown, hlost⟩ := flushFrames_success htidy hnodup h
  refine ⟨htidy', fun key c hc => hdown key c ?_, hlost⟩
  rw [seen] at hc
  split at hc
  · exact hc
  · rename_i hid
    unfold seenIn
    rw [if_neg hid]
    exact hc

theorem Apart.left {pools pools' : List (BufferPool D × Option (D → D))} (h : Apart (pools ++ pools')) :
    Apart pools := by
  have hids := h.ids
  rw [List.map_append] at hids
  exact ⟨(List.nodup_append.mp hids).1, fun p hp => h.frames p (List.mem_append_left _ hp)⟩

theorem Apart.right {pools pools' : List (BufferPool D × Option (D → D))} (h : Apart (pools ++ pools')) :
    Apart pools' := by
  have hids := h.ids
  rw [List.map_append] at hids
  exact ⟨(List.nodup_append.mp hids).2.1, fun p hp => h.frames p (List.mem_append_right _ hp)⟩

/-- A loop whose rounds hand down their pools. -/
theorem untilFailure_handedDown {A : Type} {f : A → SyncState D → RC × SyncState D}
    {pools : A → List (BufferPool D × Option (D → D))}
    (hf : ∀ a s s', Tidy s.dblwr → Apart (pools a) → f a s = (.success, s') → HandedDown (pools a) s s') :
    ∀ {as : List A} {s s' : SyncState D}, Tidy s.dblwr → Apart (as.flatMap pools) →
      untilFailure f as s = (.success, s') → HandedDown (as.flatMap pools) s s'
  | [], s, s', htidy, _, h => by
    obtain ⟨-, rfl⟩ := Prod.mk.inj h
    exact .nil htidy
  | a :: as, s, s', htidy, hapart, h => by
    obtain ⟨s₁, hfirst, hrest⟩ := untilFailure_cons h
    rw [List.flatMap_cons] at hapart ⊢
    have hdown := hf a s s₁ htidy hapart.left hfirst
    exact hdown.append (untilFailure_handedDown hf hdown.tidy hapart.right hrest) hapart

theorem syncIndex_success {index : OpenedIndex D} (htidy : Tidy s.dblwr) (hapart : Apart index.pools)
    (h : syncIndex cfg index s = (.success, s')) : HandedDown index.pools s s' := by
  cases index with
  | bplusTree pool header => exact flushPool_success htidy hapart h
  | ivfflat =>
    obtain ⟨hrc, -⟩ := Prod.mk.inj h
    cases hrc

/-- And a table: its records and its indexes. -/
theorem syncTable_success {table : OpenedTable D} (htidy : Tidy s.dblwr) (hapart : Apart table.pools)
    (h : syncTable cfg table s = (.success, s')) : HandedDown table.pools s s' := by
  cases table with
  | view =>
    obtain ⟨-, rfl⟩ := Prod.mk.inj h
    exact .nil htidy
  | table indexes dataPool =>
    unfold syncTable at h
    dsimp only at h
    cases hindexes : untilFailure (syncIndex cfg) indexes s with
    | mk rc s₁ =>
      rw [hindexes] at h
      dsimp only at h
      split at h
      · rename_i hrc
        exact absurd (Prod.mk.inj h).1 hrc
      rename_i hrc
      rw [not_not.mp hrc] at hindexes
      have hdown := untilFailure_handedDown (fun _ _ _ => syncIndex_success) htidy hapart.left hindexes
      have hdata : HandedDown [(dataPool, none)] s₁ s' := flushPool_success hdown.tidy hapart.right h
      exact hdown.append hdata hapart

theorem syncTables_success {tables : List (OpenedTable D)} (htidy : Tidy s.dblwr)
    (hapart : Apart (tables.flatMap OpenedTable.pools))
    (h : untilFailure (syncTable cfg) tables s = (.success, s')) :
    HandedDown (tables.flatMap OpenedTable.pools) s s' :=
  untilFailure_handedDown (fun _ _ _ => syncTable_success) htidy hapart h

end HandDown

end Miniob.Sync
