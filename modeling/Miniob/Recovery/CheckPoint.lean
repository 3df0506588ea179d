/-
  Replaying a log from a check point on.

  A page that is not older than an entry is left alone by the redo of the entry.  So where all pages have
  what the entries before the check point do (`Has`), replaying these entries changes nothing that is seen
  (`skip_all`), and the recovery from the check point leads to the same pages as the one from the beginning
  (`recovers_from`).  The log is replayed here without evictions in between.
-/
import Miniob.Recovery.Eviction

namespace Miniob.Recovery

open Miniob.Common Miniob.Storage Miniob.Index.Log Replayer

/-! ## What the pages have -/

/-- The log is replayed to its end, and this is what the pages are then. -/
def Recovers (pools : List Int) (s : Replayer) (pages : PageId → Option Page) : Prop :=
  ∃ n s', s.run pools (List.replicate n .next) = .ok s' ∧ s'.redoing = none ∧ s'.log = [] ∧
    s'.table.seen = pages

/-- The page is there, and is not older than the entry. -/
def UpToDate (pages : PageId → Option Page) (lsn : Int) (page : PageId) : Prop :=
  ∃ v, pages page = some v ∧ lsn ≤ v.lsn

/-- The pages have what the entry does. -/
def Has (pools : List Int) (pages : PageId → Option Page) (lsn : Int) : LogRecord → Prop
  | .allocatePage poolId _ => poolId ∈ pools ∧ UpToDate pages lsn (headerPage poolId)
  | .deallocatePage poolId _ => poolId ∈ pools ∧ UpToDate pages lsn (headerPage poolId)
  | .record page _ => page.poolId ∈ pools ∧ UpToDate pages lsn page
  | .bplusTree poolId entries => poolId ∈ pools ∧
    (∃ first, pages ⟨poolId, firstIndexPage⟩ = some first ∧ ¬ (indexFileHeader first.data).keyLength ≤ 0) ∧
    ∀ entry ∈ entries, UpToDate pages lsn ⟨poolId, entry.pageNum.toInt⟩
  | .transaction => True

/-! ## Entries that are left out -/

section Skip

variable {pools : List Int} {table : FrameTable PageId Page} {log : List (Int × LogRecord)} {lsn : Int}

/-- A page is looked at and let go. -/
theorem get_unpin (hheld : table.Held) {page : PageId} {v : Page} (hseen : table.seen page = some v) :
    ∃ t, table.get page = some (v, t) ∧ (t.unpin page).Alike table := by
  rcases table.get_eq page with ⟨-, hnone⟩ | ⟨v', t, hget, hv', hsame, hpins, -, -, -, hheld', -⟩
  · rw [hnone] at hseen
    cases hseen
  · obtain rfl := Option.some.inj (hseen.symm.trans hv')
    refine ⟨t, hget, hsame, ?_, (hheld' hheld).unpin page, hheld⟩
    show t.pins.erase page = table.pins
    rw [hpins, List.erase_cons_head]

/-- What the replayer is before the rest of the log, with the same pages. -/
structure Before (pools : List Int) (table : FrameTable PageId Page) (log : List (Int × LogRecord))
    (s : Replayer) : Prop where
  /-- The pages look the same. -/
  table : s.table.Alike table
  /-- No transaction of a tree is open. -/
  redoing : s.redoing = none
  log : s.log = log
  /-- Every pool still has its header pinned. -/
  headers : (pools.map headerPage).Subperm s.table.pins

theorem Before.of_alike {t : FrameTable PageId Page} (h : t.Alike table)
    (hheaders : (pools.map headerPage).Subperm table.pins) : Before pools table log ⟨t, none, log⟩ :=
  ⟨h, rfl, rfl, by rw [h.pins]; exact hheaders⟩

theorem header_skipped (hheld : table.Held) (hheaders : (pools.map headerPage).Subperm table.pins)
    {poolId : Int} (hpool : poolId ∈ pools) (hpage : UpToDate table.seen lsn (headerPage poolId))
    {redo : Page → Except Fault (Option Page)} (hredo : ∀ v : Page, lsn ≤ v.lsn → redo v = .ok none) :
    (⟨table, none, log⟩ : Replayer).replayHeader pools poolId redo = .ok ⟨table, none, log⟩ := by
  obtain ⟨v, hseen, hle⟩ := hpage
  have hpin : headerPage poolId ∈ table.pins := hheaders.subset (List.mem_map_of_mem hpool)
  obtain ⟨frame, hframe⟩ := Option.isSome_iff_exists.mp (hheld _ hpin)
  obtain rfl := Option.some.inj ((FrameTable.seen_of_frame hframe).symm.trans hseen)
  unfold replayHeader
  rw [if_neg (not_not_intro hpool), hframe]
  dsimp only
  rw [hredo _ hle]
  rfl

theorem record_skipped (hheld : table.Held) {page : PageId} (hpool : page.poolId ∈ pools)
    (hpage : UpToDate table.seen lsn page) (operation : RecordOperation) :
    ∃ t, (⟨table, none, log⟩ : Replayer).replayRecord pools lsn page operation = .ok ⟨t, none, log⟩ ∧
      t.Alike table := by
  obtain ⟨v, hseen, hle⟩ := hpage
  obtain ⟨t, hget, halike⟩ := get_unpin hheld hseen
  refine ⟨t.unpin page, ?_, halike⟩
  have hthis : getThisPage table page = .ok (v, t) := by
    unfold getThisPage
    rw [hget]
  unfold replayRecord
  rw [if_neg (not_not_intro hpool), bind_ok _ hthis]
  exact if_pos hle

/-- The entries of a record of the index log. -/
theorem entries_skipped {poolId : Int} {header : IndexFileHeader} : ∀ {entries : List LogEntryHandler}
    {table : FrameTable PageId Page}, table.Held →
      (∀ entry ∈ entries, UpToDate table.seen lsn ⟨poolId, entry.pageNum.toInt⟩) →
      ∃ n t, (⟨table, some ⟨lsn, poolId, header, [], [], entries⟩, log⟩ : Replayer).run pools
          (List.replicate n .next) = .ok ⟨t, none, log⟩ ∧ t.Alike table
  | [], table, hheld, _ => ⟨1, table, rfl, rfl, rfl, hheld, hheld⟩
  | entry :: entries, table, hheld, hpages => by
    obtain ⟨v, hseen, hle⟩ := hpages entry List.mem_cons_self
    obtain ⟨t, hget, halike⟩ := get_unpin hheld hseen
    have hstep : (⟨table, some ⟨lsn, poolId, header, [], [], entry :: entries⟩, log⟩ : Replayer).next pools
        = .ok ⟨t.unpin ⟨poolId, entry.pageNum.toInt⟩, some ⟨lsn, poolId, header, [], [], entries⟩, log⟩ := by
      unfold Replayer.next redoNext
      dsimp only
      rw [hget]
      exact if_pos hle
    obtain ⟨n, t', hrun, halike'⟩ := entries_skipped halike.left fun e he => by
      rw [halike.seen]
      exact hpages e (List.mem_cons_of_mem entry he)
    refine ⟨n + 1, t', ?_, halike'.seen.trans halike.seen, halike'.pins.trans halike.pins, halike'.left,
      hheld⟩
    rw [List.replicate_succ, Replayer.run]
    exact (bind_ok _ hstep).trans hrun

/-- **Step.**  Nothing is changed by an entry that the pages have. -/
theorem skip (hheld : table.Held) (hheaders : (pools.map headerPage).Subperm table.pins) {record : LogRecord}
    (hhas : Has pools table.seen lsn record) :
    ∃ n s, (⟨table, none, (lsn, record) :: log⟩ : Replayer).run pools (List.replicate n .next) = .ok s ∧
      Before pools table log s := by
  have hone : ∀ {s : Replayer} {t : FrameTable PageId Page}, s.next pools = .ok ⟨t, none, log⟩ →
      t.Alike table → ∃ n s', s.run pools (List.replicate n .next) = .ok s' ∧ Before pools table log s' :=
    fun hnext halike => ⟨1, _, bind_ok _ hnext, .of_alike halike hheaders⟩
  have hsame : table.Alike table := ⟨rfl, rfl, hheld, hheld⟩
  cases record with
  | allocatePage poolId pageNum =>
    exact hone (header_skipped hheld hheaders hhas.1 hhas.2 fun v hle => if_pos hle) hsame
  | deallocatePage poolId pageNum =>
    exact hone (header_skipped hheld hheaders hhas.1 hhas.2 fun v hle => if_pos hle) hsame
  | record page operation =>
    obtain ⟨t, hreplay, halike⟩ := record_skipped hheld hhas.1 hhas.2 operation
    exact hone hreplay halike
  | transaction => exact hone rfl hsame
  | bplusTree poolId entries =>
    obtain ⟨hpool, ⟨first, hseen, hkey⟩, hentries⟩ := hhas
    obtain ⟨t, hget, halike⟩ := get_unpin hheld hseen
    have hthis : getThisPage table ⟨poolId, firstIndexPage⟩ = .ok (first, t) := by
      unfold getThisPage
      rw [hget]
    have hopen : (⟨table, none, log⟩ : Replayer).openTree pools lsn poolId entries
        = .ok ⟨t.unpin ⟨poolId, firstIndexPage⟩,
            some ⟨lsn, poolId, indexFileHeader first.data, [], [], entries⟩, log⟩ := by
      unfold openTree
      rw [if_neg (not_not_intro hpool), bind_ok _ hthis]
      exact if_neg hkey
    rw [← halike.seen] at hentries
    obtain ⟨n, t', hrun, halike'⟩ : ∃ n t', (⟨t.unpin ⟨poolId, firstIndexPage⟩,
        some ⟨lsn, poolId, indexFileHeader first.data, [], [], entries⟩, log⟩ : Replayer).run pools
          (List.replicate n .next) = .ok ⟨t', none, log⟩ ∧ t'.Alike (t.unpin ⟨poolId, firstIndexPage⟩) :=
      entries_skipped halike.left hentries
    refine ⟨n + 1, _, (bind_ok _ hopen).trans hrun, .of_alike ⟨?_, ?_, halike'.left, hheld⟩ hheaders⟩
    · exact halike'.seen.trans halike.seen
    · exact halike'.pins.trans halike.pins

theorem run_append {as : List ReplayAction} {s s₁ : Replayer} (h : s.run pools as = .ok s₁)
    (as' : List ReplayAction) : s.run pools (as ++ as') = s₁.run pools as' := by
  induction as generalizing s with
  | nil =>
    obtain rfl := Except.ok.inj h
    rfl
  | cons a as ih =>
    obtain ⟨s₂, hstep, hrest⟩ := ok_of_bind h
    exact (bind_ok _ hstep).trans (ih hrest)

/-- **Run.** -/
theorem skip_all (log : List (Int × LogRecord)) : ∀ {es : List (Int × LogRecord)}
    {table : FrameTable PageId Page}, table.Held → (pools.map headerPage).Subperm table.pins →
      (∀ e ∈ es, Has pools table.seen e.1 e.2) → ∃ n s,
        (⟨table, none, es ++ log⟩ : Replayer).run pools (List.replicate n .next) = .ok s ∧
        Before pools table log s
  | [], table, hheld, hheaders, _ => ⟨0, _, rfl, .of_alike ⟨rfl, rfl, hheld, hheld⟩ hheaders⟩
  | (lsn, record) :: es, table, hheld, hheaders, hhas => by
    obtain ⟨n, ⟨t, redoing, rest⟩, hrun, hbefore⟩ : ∃ n s,
        (⟨table, none, (lsn, record) :: (es ++ log)⟩ : Replayer).run pools (List.replicate n .next) = .ok s ∧
          Before pools table (es ++ log) s := skip hheld hheaders (hhas (lsn, record) List.mem_cons_self)
    obtain rfl : redoing = none := hbefore.redoing
    obtain rfl : rest = es ++ log := hbefore.log
    have halike : t.Alike table := hbefore.table
    obtain ⟨m, s, hrest, hs⟩ := skip_all log halike.left hbefore.headers fun e he => by
      rw [halike.seen]
      exact hhas e (List.mem_cons_of_mem _ he)
    refine ⟨n + m, s, ?_, ⟨?_, ?_, hs.table.left, hheld⟩, hs.redoing, hs.log, hs.headers⟩
    · rw [List.replicate_add]
      exact (run_append hrun _).trans hrest
    · exact hs.table.seen.trans halike.seen
    · exact hs.table.pins.trans halike.pins

end Skip

/-! ## The whole recovery -/

section Recovers

variable {pools : List Int} {s s' : Replayer} {pages : PageId → Option Page}

/-- At the end of the log nothing is done any more. -/
theorem run_done (hredoing : s.redoing = none) (hlog : s.log = []) (n : Nat) :
    s.run pools (List.replicate n .next) = .ok s := by
  induction n with
  | zero => rfl
  | succ n ih =>
    have hnext : s.next pools = .ok s := by
      unfold Replayer.next
      rw [hredoing, hlog]
    exact (bind_ok _ hnext).trans ih

/-- A recovery that is under way. -/
theorem recovers_of_run {n : Nat} (h : s.run pools (List.replicate n .next) = .ok s') :
    Recovers pools s pages ↔ Recovers pools s' pages := by
  constructor
  · rintro ⟨m, sₙ, hrun, hredoing, hlog, hseen⟩
    refine ⟨m, sₙ, ?_, hredoing, hlog, hseen⟩
    -- both ways lead through `n + m` steps
    have hleft := (run_append hrun (List.replicate n .next)).trans (run_done hredoing hlog n)
    have hright := run_append h (List.replicate m .next)
    rw [← List.replicate_add] at hleft hright
    rw [← hright, Nat.add_comm n m]
    exact hleft
  · rintro ⟨m, sₙ, hrun, hend⟩
    refine ⟨n + m, sₙ, ?_, hend⟩
    rw [List.replicate_add]
    exact (run_append h _).trans hrun

theorem run_same (h : Same pools s s') (n : Nat) :
    Agree (Same pools) (s.run pools (List.replicate n .next)) (s'.run pools (List.replicate n .next)) := by
  induction n generalizing s s' with
  | zero => exact .ok h
  | succ n ih => exact h.next.bind fun a a' ha => ih ha

/-- Replayers that look alike recover alike. -/
theorem Same.recovers (h : Same pools s s') (hrec : Recovers pools s pages) : Recovers pools s' pages := by
  obtain ⟨n, sₙ, hrun, hredoing, hlog, hseen⟩ := hrec
  have hagree := run_same h n
  rw [hrun] at hagree
  generalize hout : s'.run pools (List.replicate n .next) = out at hagree
  cases hagree with
  | ok hsame =>
    exact ⟨n, _, hout, hsame.redoing.symm.trans hredoing, hsame.log.symm.trans hlog,
      hsame.table.seen.symm.trans hseen⟩

theorem Before.same {table : FrameTable PageId Page} {log : List (Int × LogRecord)}
    (h : Before pools table log s) (h' : Before pools table log s') : Same pools s s' := by
  refine ⟨⟨h.table.seen.trans h'.table.seen.symm, h.table.pins.trans h'.table.pins.symm, h.table.left,
    h'.table.left⟩, h.redoing.trans h'.redoing.symm, h.log.trans h'.log.symm, ?_⟩
  unfold Replayer.pinned
  rw [h.redoing]
  exact h.headers

/-- **From the check point.**  The pages have what the entries before it do: then the recovery from the check
    point leads to the pages that the recovery from the beginning leads to. -/
theorem recovers_from {table : FrameTable PageId Page} {es later : List (Int × LogRecord)}
    (hheld : table.Held) (hheaders : (pools.map headerPage).Subperm table.pins)
    (hhas : ∀ e ∈ es, Has pools table.seen e.1 e.2) (checkPoint : Int) :
    Recovers pools ⟨table, none, es ++ later⟩ pages ↔
      Recovers pools ⟨table, none, (es.filter fun e => checkPoint ≤ e.1) ++ later⟩ pages := by
  obtain ⟨n, s, hrun, hs⟩ := skip_all later hheld hheaders hhas
  obtain ⟨n', s', hrun', hs'⟩ := skip_all later hheld hheaders
    fun e (he : e ∈ es.filter fun e => checkPoint ≤ e.1) => hhas e (List.mem_filter.mp he).1
  rw [recovers_of_run hrun, recovers_of_run hrun']
  exact ⟨(hs.same hs').recovers, (hs'.same hs).recovers⟩

end Recovers

end Miniob.Recovery
