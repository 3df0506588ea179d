/-
  The check point that a sync records.

  A check point is valid if the data files alone have what was seen of the pages when it was recorded.  Then
  a recovery from it and one from the beginning of the log lead to the same pages, then and as long as the
  pages only become newer (`recovers_of_complete`).

  `Db::sync` looks at every failure but one: what the last flush of the double write buffer answers is
  overwritten.  So its check point is valid exactly if that flush leaves no page behind
  (`check_point_valid_iff`), or if there is nothing to advance to and the pages that are left behind are in
  their files all the same.
-/
import Miniob.Db.Sync
import Miniob.Recovery.CheckPoint

namespace Miniob.Sync

open Miniob.Common Miniob.Storage Miniob.Buffer

variable {D : Type}

/-! ## A database that is open -/

/-- The double write buffer has a page once and valid, and no page is in two frames. -/
structure OpenedDb (D : Type) where
  tables : List (OpenedTable D)
  log : LogState
  dblwr : DiskDoubleWriteBuffer D
  files : Files D
  checkPoint : Int
  recorded : Int
  tidy : Tidy dblwr
  apart : Apart (tables.flatMap OpenedTable.pools)

namespace OpenedDb

variable (cfg : SyncConfig D) (db : OpenedDb D)

/-- When a sync begins. -/
def start : SyncState D := ⟨db.log, db.dblwr, ⟨db.files, 0, []⟩, db.checkPoint, db.recorded⟩

/-- What is seen of a page. -/
def seen (key : DoubleWritePageKey) : Option (Int × D) :=
  Sync.seen (db.tables.flatMap OpenedTable.pools) db.start key

def sync : RC × SyncState D := Sync.sync cfg db.tables db.start

/-- All tables have been synced. -/
def tablesSynced : RC × SyncState D := untilFailure (syncTable cfg) db.tables db.start

/-- The pages that the last flush leaves behind. -/
def leftBehind : List (DoubleWritePage D) :=
  let s := (db.tablesSynced cfg).2
  DiskDoubleWriteBuffer.leftBehind cfg.fmt cfg.outcomes (cfg.t.order s.dblwr.pages) s.disk

end OpenedDb

/-- A page in its data file. -/
def inDataFile (s : SyncState D) (key : DoubleWritePageKey) : Option (Int × D) :=
  (s.disk.files.data key).map Page.content

/-! ## What a check point is for -/

section Spec

open Recovery

/-- The pages as a replayer has them. -/
def pagesOf (content : DoubleWritePageKey → Option (Int × Memory)) (page : PageId) : Option Recovery.Page :=
  if page.pageNum < 0 then none
  else (content ⟨page.poolId, page.pageNum.toNat⟩).map fun c => ⟨c.1, c.2⟩

/-- The pages have become newer, and the headers of the indexes in the log are still headers. -/
structure Newer (log : List (Int × LogRecord)) (pages pages' : PageId → Option Recovery.Page) : Prop where
  newer : ∀ page v, pages page = some v → ∃ v', pages' page = some v' ∧ v.lsn ≤ v'.lsn
  headers : ∀ lsn poolId entries, (lsn, .bplusTree poolId entries) ∈ log → ∀ v v',
    pages ⟨poolId, Recovery.firstIndexPage⟩ = some v → pages' ⟨poolId, Recovery.firstIndexPage⟩ = some v' →
      ¬ (indexFileHeader v.data).keyLength ≤ 0 → ¬ (indexFileHeader v'.data).keyLength ≤ 0

/-- Where the pages that were seen have what the log says, replaying the log from the check point on leads
    to the pages that replaying all of it leads to, whatever has been logged and written since. -/
def RecoversFrom (seen inFile : DoubleWritePageKey → Option (Int × Memory)) (checkPoint : Int) : Prop :=
  ∀ (pools : List Int) (log : List (Int × LogRecord)), (∀ e ∈ log, Has pools (pagesOf seen) e.1 e.2) →
    ∀ table : FrameTable PageId Recovery.Page, table.Held → (pools.map headerPage).Subperm table.pins →
      Newer log (pagesOf inFile) table.seen → ∀ (later : List (Int × LogRecord)) pages,
        Recovers pools ⟨table, none, log ++ later⟩ pages ↔
          Recovers pools ⟨table, none, (log.filter fun e => checkPoint ≤ e.1) ++ later⟩ pages

/-- A sync that succeeds has everything in the data files, and a sync that could not write a page does not
    advance the check point. -/
structure CheckPointValid (cfg : SyncConfig Memory) (db : OpenedDb Memory) : Prop where
  complete : (db.sync cfg).1 = .success → ∀ key c, db.seen key = some c →
    inDataFile (db.sync cfg).2 key = some c
  recovery : (db.sync cfg).1 = .success →
    RecoversFrom db.seen (inDataFile (db.sync cfg).2) (db.sync cfg).2.recorded
  notAdvanced : (∃ w ∈ (db.sync cfg).2.disk.failures, w.BringsPage) → (db.sync cfg).2.recorded = db.recorded

/-- If the sync comes to its end, no page is left behind by the last flush; or nothing was logged since the
    last check point, and the pages that are left behind are in their files as they were seen. -/
def LeavesNothing (cfg : SyncConfig Memory) (db : OpenedDb Memory) : Prop :=
  (db.tablesSynced cfg).1 = .success →
  (db.log.running = true ∨ db.log.currentLsn ≤ db.log.flushedLsn) → cfg.metaWritten = true →
    db.leftBehind cfg = [] ∨
    (db.log.currentLsn = db.recorded ∧ ∀ p ∈ db.leftBehind cfg, ∀ c, db.seen p.key = some c →
      inDataFile (flushDoubleWrite cfg (db.tablesSynced cfg).2).2 p.key = some c)

end Spec

/-! ## Recovery -/

section Recovery

open Recovery

variable {pools : List Int} {pages pages' : PageId → Option Recovery.Page} {lsn : Int}

theorem UpToDate.newer (hnewer : ∀ page v, pages page = some v → ∃ v', pages' page = some v' ∧ v.lsn ≤ v'.lsn)
    {page : PageId} (h : UpToDate pages lsn page) : UpToDate pages' lsn page := by
  obtain ⟨v, hv, hle⟩ := h
  obtain ⟨v', hv', hle'⟩ := hnewer page v hv
  exact ⟨v', hv', Int.le_trans hle hle'⟩

/-- Newer pages have what the old ones have. -/
theorem Has.newer {log : List (Int × LogRecord)} (hnewer : Newer log pages pages') {record : LogRecord}
    (hmem : (lsn, record) ∈ log) (h : Has pools pages lsn record) : Has pools pages' lsn record := by
  cases record with
  | allocatePage poolId pageNum => exact ⟨h.1, UpToDate.newer hnewer.newer h.2⟩
  | deallocatePage poolId pageNum => exact ⟨h.1, UpToDate.newer hnewer.newer h.2⟩
  | record page operation => exact ⟨h.1, UpToDate.newer hnewer.newer h.2⟩
  | bplusTree poolId entries =>
    obtain ⟨hpool, ⟨first, hfirst, hkey⟩, hentries⟩ := h
    obtain ⟨first', hfirst', -⟩ := hnewer.newer _ _ hfirst
    refine ⟨hpool, ⟨first', hfirst', ?_⟩, fun entry he => UpToDate.newer hnewer.newer (hentries entry he)⟩
    exact hnewer.headers lsn poolId entries hmem first first' hfirst hfirst' hkey
  | transaction => exact trivial

/-- What is in the data files can be recovered from any check point. -/
theorem recovers_of_complete {seen inFile : DoubleWritePageKey → Option (Int × Memory)}
    (h : ∀ key c, seen key = some c → inFile key = some c) (checkPoint : Int) :
    RecoversFrom seen inFile checkPoint := by
  intro pools log hhas table hheld hheaders hnewer later pages
  refine recovers_from hheld hheaders (fun e he => ?_) checkPoint
  have hseen : ∀ page v, pagesOf seen page = some v → pagesOf inFile page = some v := by
    intro page v hv
    unfold pagesOf at hv ⊢
    split at hv
    · cases hv
    · rename_i hnum
      obtain ⟨c, hc, rfl⟩ := Option.map_eq_some_iff.mp hv
      rw [if_neg hnum, h _ c hc]
      rfl
  have hnewer' : Newer log (pagesOf seen) table.seen :=
    ⟨fun page v hv => hnewer.newer page v (hseen page v hv),
      fun lsn poolId entries hmem v v' hv => hnewer.headers lsn poolId entries hmem v v' (hseen _ v hv)⟩
  exact Has.newer hnewer' he (hhas e he)

end Recovery

/-! ## The end of a sync -/

section End

variable {cfg : SyncConfig D} {db : OpenedDb D} {s : SyncState D}

/-- The tables have not all been synced, and the sync has ended. -/
theorem sync_of_failure (h : (db.tablesSynced cfg).1 ≠ .success) :
    (db.sync cfg).1 ≠ .success ∧ (db.sync cfg).2.recorded = db.recorded := by
  have hsync : db.sync cfg = db.tablesSynced cfg := by
    unfold OpenedDb.sync Sync.sync
    exact if_pos h
  rw [hsync]
  exact ⟨h, (sameLog_syncTables db.tables db.start).recorded⟩

theorem sync_of_success (h : (db.tablesSynced cfg).1 = .success) :
    db.sync cfg = setCheckPoint cfg (flushDoubleWrite cfg (db.tablesSynced cfg).2).2 := by
  unfold OpenedDb.sync Sync.sync
  exact if_neg (not_not_intro h)

/-- What a sync records, if it gets so far. -/
theorem setCheckPoint_cases (cfg : SyncConfig D) (s : SyncState D) :
    (setCheckPoint cfg s).2.disk = s.disk ∧
    (((s.log.running = true ∨ s.log.currentLsn ≤ s.log.flushedLsn) ∧ cfg.metaWritten = true ∧
        (setCheckPoint cfg s).1 = .success ∧ (setCheckPoint cfg s).2.recorded = s.log.currentLsn) ∨
      (¬ ((s.log.running = true ∨ s.log.currentLsn ≤ s.log.flushedLsn) ∧ cfg.metaWritten = true) ∧
        (setCheckPoint cfg s).1 ≠ .success ∧ (setCheckPoint cfg s).2.recorded = s.recorded)) := by
  have hwait := waitLsn_success_iff s.log s.log.currentLsn
  unfold setCheckPoint
  dsimp only
  split
  · rename_i hrc
    exact ⟨rfl, Or.inr ⟨fun h => hrc (hwait.mpr h.1), hrc, rfl⟩⟩
  · rename_i hrc
    have hreached := hwait.mp (not_not.mp hrc)
    unfold flushMeta
    split
    · rename_i hmeta
      exact ⟨rfl, Or.inl ⟨hreached, hmeta, rfl, rfl⟩⟩
    · rename_i hmeta
      exact ⟨rfl, Or.inr ⟨fun h => hmeta h.2, fun hrc => RC.noConfusion hrc, rfl⟩⟩

/-- The log behind the tables and the last flush is that of the beginning. -/
theorem log_flushDoubleWrite (cfg : SyncConfig D) (db : OpenedDb D) :
    let s := (flushDoubleWrite cfg (db.tablesSynced cfg).2).2
    s.recorded = db.recorded ∧ s.log.currentLsn = db.log.currentLsn ∧
      ((s.log.running = true ∨ s.log.currentLsn ≤ s.log.flushedLsn) ↔
        db.log.running = true ∨ db.log.currentLsn ≤ db.log.flushedLsn) := by
  intro s
  have hsame : SameLog db.start (db.tablesSynced cfg).2 := sameLog_syncTables db.tables db.start
  have hrunning : s.log.running = db.log.running := hsame.running
  have hcurrent : s.log.currentLsn = db.log.currentLsn := hsame.current
  refine ⟨hsame.recorded, hcurrent, ?_⟩
  rw [hrunning, hcurrent]
  cases hrun : db.log.running with
  | true => exact iff_of_true (Or.inl rfl) (Or.inl rfl)
  | false =>
    have hflushed : s.log.flushedLsn = db.log.flushedLsn := hsame.stopped hrun
    rw [hflushed]

theorem handedDown (h : (db.tablesSynced cfg).1 = .success) :
    HandedDown (db.tables.flatMap OpenedTable.pools) db.start (db.tablesSynced cfg).2 := by
  have hrun : untilFailure (syncTable cfg) db.tables db.start = (.success, (db.tablesSynced cfg).2) := by
    rw [← h]
    rfl
  exact syncTables_success db.tidy db.apart hrun

/-- Behind the last flush a page is in its data file, unless it is left behind. -/
theorem inDataFile_of_seen (h : (db.tablesSynced cfg).1 = .success) {key : DoubleWritePageKey} {c : Int × D}
    (hseen : db.seen key = some c) (hleft : ∀ p ∈ db.leftBehind cfg, p.key ≠ key) :
    inDataFile (flushDoubleWrite cfg (db.tablesSynced cfg).2).2 key = some c := by
  have hdown := handedDown h
  obtain ⟨page, hstored, rfl⟩ := Option.map_eq_some_iff.mp (hdown.seen key c hseen)
  have htidy := hdown.tidy
  have hmem : ∀ {p}, p ∈ cfg.t.order (db.tablesSynced cfg).2.dblwr.pages ↔
      p ∈ (db.tablesSynced cfg).2.dblwr.pages := (cfg.t.perm _).mem_iff
  have hdata : (DiskDoubleWriteBuffer.flushLoop cfg.fmt cfg.outcomes
      (cfg.t.order (db.tablesSynced cfg).2.dblwr.pages) (db.tablesSynced cfg).2.disk).2.files.data key
        = some page := by
    refine flushLoop_data (fun p hp => htidy.valid p (hmem.mp hp)) (fun p hp hkey => ?_) hleft ?_
    · subst hkey
      exact Option.some.inj ((stored_of_mem htidy (hmem.mp hp)).symm.trans hstored)
    · rcases stored_cases hstored with ⟨p, hp, hkey, -⟩ | ⟨-, hdata⟩
      · exact Or.inl ⟨p, hmem.mpr hp, hkey⟩
      · exact Or.inr hdata
  unfold inDataFile flushDoubleWrite DiskDoubleWriteBuffer.flushPageOn
  dsimp only
  split <;> exact congrArg (Option.map Page.content) hdata

/-- Nothing but marks on slots has failed. -/
theorem noneLost_of_leftBehind_nil (h : (db.tablesSynced cfg).1 = .success) (hleft : db.leftBehind cfg = []) :
    ¬ ∃ w ∈ (flushDoubleWrite cfg (db.tablesSynced cfg).2).2.disk.failures, w.BringsPage := by
  have hdown := handedDown h
  have hloop := flushLoop_success_iff.mpr hleft
  have hflush : (db.tablesSynced cfg).2.disk.NoneLost (flushDoubleWrite cfg (db.tablesSynced cfg).2).2.disk := by
    unfold flushDoubleWrite DiskDoubleWriteBuffer.flushPageOn
    dsimp only
    rw [if_neg (not_not_intro hloop)]
    have hrun : DiskDoubleWriteBuffer.flushLoop cfg.fmt cfg.outcomes
        (cfg.t.order (db.tablesSynced cfg).2.dblwr.pages) (db.tablesSynced cfg).2.disk
          = (.success, (DiskDoubleWriteBuffer.flushLoop cfg.fmt cfg.outcomes
            (cfg.t.order (db.tablesSynced cfg).2.dblwr.pages) (db.tablesSynced cfg).2.disk).2) := by
      rw [← hloop]
    exact (flushLoop_success hrun).2
  rintro ⟨w, hw, hbrings⟩
  rcases (hdown.noneLost.trans hflush) w hw with hnone | hnot
  · exact absurd hnone List.not_mem_nil
  · exact hnot hbrings

theorem lost_of_leftBehind (hleft : db.leftBehind cfg ≠ []) :
    ∃ w ∈ (flushDoubleWrite cfg (db.tablesSynced cfg).2).2.disk.failures, w.BringsPage := by
  have hloop : (DiskDoubleWriteBuffer.flushLoop cfg.fmt cfg.outcomes
      (cfg.t.order (db.tablesSynced cfg).2.dblwr.pages) (db.tablesSynced cfg).2.disk).1 ≠ .success :=
    fun hrc => hleft (flushLoop_success_iff.mp hrc)
  unfold flushDoubleWrite DiskDoubleWriteBuffer.flushPageOn
  dsimp only
  rw [if_pos hloop]
  exact flushLoop_failure hloop

end End

/-- **The check point.**  In every database and with every outcome of the page writes, the check point of a
    sync is valid exactly if the sync leaves nothing behind. -/
theorem check_point_valid_iff (cfg : SyncConfig Memory) (db : OpenedDb Memory) :
    CheckPointValid cfg db ↔ LeavesNothing cfg db := by
  -- the check point is only reached when every table could be synced
  by_cases htables : (db.tablesSynced cfg).1 = .success
  · obtain ⟨hrecorded, hcurrent, hreached⟩ := log_flushDoubleWrite cfg db
    have hsync := sync_of_success htables
    obtain ⟨hdisk, ⟨hwait, hmeta, hrc, hset⟩ | ⟨hnot, hrc, hset⟩⟩ :=
      setCheckPoint_cases cfg (flushDoubleWrite cfg (db.tablesSynced cfg).2).2
    -- the check point is written, or the log could not be waited for
    · rw [hcurrent] at hset
      have hfile : ∀ key, inDataFile (db.sync cfg).2 key
          = inDataFile (flushDoubleWrite cfg (db.tablesSynced cfg).2).2 key := by
        intro key
        unfold inDataFile
        rw [hsync, hdisk]
      constructor
      -- a page left behind must be in the data file, or the check point must not have moved
      · intro h _ _ _
        by_cases hleft : db.leftBehind cfg = []
        · exact Or.inl hleft
        · refine Or.inr ⟨?_, fun p _ c hc => ?_⟩
          · have hkept := h.notAdvanced (by rw [hsync, hdisk]; exact lost_of_leftBehind hleft)
            rw [hsync, hset] at hkept
            exact hkept
          · rw [← hfile]
            exact h.complete (by rw [hsync]; exact hrc) p.key c hc
      -- what is not left behind is in the data file after the flush
      · intro h
        have hcases := h htables (hreached.mp hwait) hmeta
        have hcomplete : ∀ key c, db.seen key = some c → inDataFile (db.sync cfg).2 key = some c := by
          intro key c hc
          rw [hfile]
          by_cases hkey : ∃ p ∈ db.leftBehind cfg, p.key = key
          · obtain ⟨p, hp, rfl⟩ := hkey
            rcases hcases with hnil | ⟨-, hin⟩
            · rw [hnil] at hp
              cases hp
            · exact hin p hp c hc
          · exact inDataFile_of_seen htables hc fun p hp heq => hkey ⟨p, hp, heq⟩
        refine ⟨fun _ => hcomplete, fun _ => recovers_of_complete hcomplete _, fun hlost => ?_⟩
        rw [hsync, hdisk] at hlost
        rcases hcases with hnil | ⟨hsame, -⟩
        · exact absurd hlost (noneLost_of_leftBehind_nil htables hnil)
        · rw [hsync, hset, hsame]
    · -- the check point is not set
      refine iff_of_true ⟨fun h => ?_, fun h => ?_, fun _ => ?_⟩ fun _ hwait hmeta => ?_
      · rw [hsync] at h
        exact absurd h hrc
      · rw [hsync] at h
        exact absurd h hrc
      · rw [hsync, hset, hrecorded]
      · exact absurd ⟨hreached.mpr hwait, hmeta⟩ hnot
  · obtain ⟨hrc, hsame⟩ := sync_of_failure htables
    exact iff_of_true ⟨fun h => absurd h hrc, fun h => absurd h hrc, fun _ => hsame⟩ fun h => absurd h htables

/-! ## A page that cannot be written -/

/-- The first write to a data file fails: a slot and the header are written before. -/
def dataFileFull : SyncConfig Memory where
  fmt := ⟨fun _ => 0, fun _ => 0⟩
  outcomes n := n != 2
  maxPages := 16
  t := .inserted
  metaWritten := true

/-- One table with one page, which was changed by the only entry of the log. -/
def changedPage : OpenedDb Memory where
  tables := [.table [] ⟨1, [(0, ⟨1, 0, fun _ => 0⟩)]⟩]
  log := ⟨true, 1, 0⟩
  dblwr := .empty
  files := ⟨0, fun _ => none, fun key => if key = ⟨1, 0⟩ then some ⟨0, 0, fun _ => 0⟩ else none⟩
  checkPoint := 0
  recorded := 0
  tidy := .empty
  apart := ⟨by decide, by decide⟩

/-- The sync succeeds, the check point is advanced, and the page is in its file as it was before. -/
theorem check_point_without_page :
    (changedPage.sync dataFileFull).1 = .success ∧
    (inDataFile (changedPage.sync dataFileFull).2 ⟨1, 0⟩).map Prod.fst = some 0 ∧
    ¬ CheckPointValid dataFileFull changedPage := by
  refine ⟨rfl, rfl, fun h => ?_⟩
  have hlost : ∃ w ∈ (changedPage.sync dataFileFull).2.disk.failures, w.BringsPage :=
    ⟨.data ⟨1, 0⟩ ⟨1, 0, fun _ => 0⟩, List.mem_singleton_self _, trivial⟩
  have hsame : (1 : Int) = 0 := h.notAdvanced hlost
  revert hsame
  decide

end Miniob.Sync
