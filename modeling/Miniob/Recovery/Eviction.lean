/-
  What evictions do to a recovery.

  Two replayers whose tables look alike go on alike (`Same.next`), whatever of their pages is in frames,
  and an eviction from a synced table is not seen.  So evictions change nothing as long as the table is
  synced (`Clean`), and for that every redo has to leave its frame dirty.  The handlers mark the frame
  themselves but for `INIT_PAGE` of the record log and all entries of the index log other than those for
  the header page; these leave the mark as it is (`Admitted`).
-/
import Mathlib.Data.List.Perm.Subperm
import Miniob.Recovery.Replay

namespace Miniob.Recovery

open Miniob.Common Miniob.Storage Miniob.Index.Log Replayer

/-! ## Two replayers that look alike -/

/-- The pages a record of the index log has pinned. -/
def TreeRedo.pinned (redo : TreeRedo) : List PageId :=
  (redo.frames ++ redo.memo).map fun p => ⟨redo.poolId, p⟩

def Replayer.pinned (s : Replayer) : List PageId :=
  match s.redoing with
  | none => []
  | some redo => redo.pinned

/-- The pins there have to be: of the pages of the record, and of the header pages of all pools. -/
def Pinned (pools : List Int) (held : List PageId) (table : FrameTable PageId Page) : Prop :=
  (held ++ pools.map headerPage).Subperm table.pins

/-- The two replayers differ in what is in a frame only, and the headers and the pages of the open transaction
    are pinned. -/
structure Same (pools : List Int) (s s' : Replayer) : Prop where
  table : s.table.Alike s'.table
  redoing : s.redoing = s'.redoing
  log : s.log = s'.log
  pinned : Pinned pools s.pinned s.table

section Alike

variable {pools : List Int} {held : List PageId} {table table' : FrameTable PageId Page} {page : PageId}

theorem Pinned.header (h : Pinned pools held table) {poolId : Int} (hp : poolId ∈ pools) :
    headerPage poolId ∈ table.pins :=
  List.Subperm.subset h (List.mem_append_right _ (List.mem_map_of_mem hp))

theorem Pinned.cons_unpin (h : Pinned pools (page :: held) table) : Pinned pools held (table.unpin page) := by
  have := List.Subperm.erase page h
  rwa [List.cons_append, List.erase_cons_head] at this

theorem Pinned.perm (h : Pinned pools held table) {held' : List PageId} (hp : held.Perm held') :
    Pinned pools held' table :=
  ((hp.append_right _).subperm_right).mp h

theorem Pinned.mem (h : Pinned pools (page :: held) table) : page ∈ table.pins :=
  List.Subperm.subset h List.mem_cons_self

theorem Pinned.write (h : Pinned pools held table) (page : PageId) (v : Page) (mark : Bool) :
    Pinned pools held (table.write page v mark) := by
  unfold Pinned
  rw [FrameTable.pins_write]
  exact h

theorem frames_eq (h : table.Alike table') (hp : page ∈ table.pins) :
    ∃ f f', table.frames page = some f ∧ table'.frames page = some f' ∧ f.page = f'.page := by
  obtain ⟨f, hf⟩ := Option.isSome_iff_exists.mp (h.left page hp)
  obtain ⟨f', hf'⟩ := Option.isSome_iff_exists.mp (h.right page (h.pins ▸ hp))
  have hseen := congrFun h.seen page
  rw [FrameTable.seen_of_frame hf, FrameTable.seen_of_frame hf'] at hseen
  exact ⟨f, f', hf, hf', Option.some.inj hseen⟩

/-- Both find the page, or neither does. -/
theorem get_agree (h : table.Alike table') (hpin : Pinned pools held table) (page : PageId) :
    (table.get page = none ∧ table'.get page = none) ∨
    ∃ frame t t', table.get page = some (frame, t) ∧ table'.get page = some (frame, t') ∧ t.Alike t' ∧
      Pinned pools (page :: held) t := by
  rcases h.get page with hnone | ⟨frame, t, t', hget, hget', halike⟩
  · exact Or.inl hnone
  · refine Or.inr ⟨frame, t, t', hget, hget', halike, ?_⟩
    rcases table.get_eq page with ⟨hnone, -⟩ | ⟨frame', t₁, hget₁, -, -, hpins, -⟩
    · rw [hnone] at hget
      cases hget
    · obtain ⟨-, rfl⟩ := Prod.mk.inj (Option.some.inj (hget₁.symm.trans hget))
      unfold Pinned
      rw [hpins]
      exact (List.subperm_cons page).mpr hpin

theorem release_alike (poolId : Int) {rest : List PageId} {memo : List PageNum}
    (h : table.Alike table') (hpin : Pinned pools (memo.map (⟨poolId, ·⟩) ++ rest) table) :
    (release poolId memo table).Alike (release poolId memo table') ∧
      Pinned pools rest (release poolId memo table) := by
  induction memo generalizing table table' with
  | nil => exact ⟨h, hpin⟩
  | cons p memo ih => exact ih (h.unpin ⟨poolId, p⟩) hpin.cons_unpin

/-- Checking the LSNs changes what is seen in the same way. -/
theorem setLsns_alike (lsn poolId : Int) {rest : List PageId} {frames : List PageNum}
    (h : table.Alike table') (hpin : Pinned pools (frames.map (⟨poolId, ·⟩) ++ rest) table) :
    (setLsns lsn poolId frames table).Alike (setLsns lsn poolId frames table') ∧
      Pinned pools rest (setLsns lsn poolId frames table) := by
  induction frames generalizing table table' with
  | nil => exact ⟨h, hpin⟩
  | cons p frames ih =>
    have hmem : (⟨poolId, p⟩ : PageId) ∈ table.pins := hpin.mem
    obtain ⟨f, f', hf, hf', hpage⟩ := frames_eq h hmem
    unfold setLsns
    dsimp only
    rw [hf, hf']
    dsimp only
    rw [← hpage]
    exact ih ((h.write hpin.mem _ _).unpin _) (hpin.write _ _ _).cons_unpin

end Alike

section Next

variable {pools : List Int} {s s' : Replayer}

/-- A header is replayed alike, whatever has been evicted. -/
theorem replayHeader_same (h : Same pools s s') (poolId : Int) (redo : Page → Except Fault (Option Page)) :
    Agree (Same pools) (s.replayHeader pools poolId redo) (s'.replayHeader pools poolId redo) := by
  unfold Replayer.replayHeader
  by_cases hpool : poolId ∉ pools
  · rw [if_pos hpool, if_pos hpool]
    exact .error _
  · have hmem := h.pinned.header (not_not.mp hpool)
    obtain ⟨f, f', hf, hf', hpage⟩ := frames_eq h.table hmem
    rw [if_neg hpool, if_neg hpool, hf, hf']
    dsimp only
    rw [hpage]
    cases redo f'.page with
    | error e => exact .error e
    | ok out =>
      cases out with
      | none => exact .ok h
      | some page => exact .ok ⟨h.table.write hmem page true, h.redoing, h.log, h.pinned.write _ _ _⟩

/-- A page is found in its frame or read from disk, and it is the same page. -/
theorem getThisPage_agree {held : List PageId} {table table' : FrameTable PageId Page}
    (h : table.Alike table') (hpin : Pinned pools held table) (page : PageId) :
    Agree (fun a a' => a.1 = a'.1 ∧ a.2.Alike a'.2 ∧ Pinned pools (page :: held) a.2)
      (getThisPage table page) (getThisPage table' page) := by
  unfold getThisPage
  rcases get_agree h hpin page with ⟨hnone, hnone'⟩ | ⟨frame, t, t', hget, hget', halike, hpin'⟩
  · rw [hnone, hnone']
    exact .error _
  · rw [hget, hget']
    exact .ok ⟨rfl, halike, hpin'⟩

/-- So is a record. -/
theorem replayRecord_same (h : Same pools s s') (lsn : Int) (page : PageId) (operation : RecordOperation) :
    Agree (Same pools) (s.replayRecord pools lsn page operation)
      (s'.replayRecord pools lsn page operation) := by
  unfold Replayer.replayRecord
  by_cases hpool : page.poolId ∉ pools
  · rw [if_pos hpool, if_pos hpool]
    exact .error _
  · rw [if_neg hpool, if_neg hpool]
    refine (getThisPage_agree h.table h.pinned page).bind fun a a' ha => ?_
    obtain ⟨frame, table⟩ := a
    obtain ⟨frame', table'⟩ := a'
    obtain ⟨rfl, halike, hpin⟩ := ha
    dsimp only
    split
    · exact .ok ⟨halike.unpin page, h.redoing, h.log, hpin.cons_unpin⟩
    · cases operation.redo frame.data with
      | error e => exact .error e
      | ok data =>
        exact .ok ⟨(halike.write hpin.mem _ _).unpin page, h.redoing, h.log, (hpin.write _ _ _).cons_unpin⟩

/-- So is the opening of a B+ tree whose entries are replayed. -/
theorem openTree_same (h : Same pools s s') (hnone : s.redoing = none) (lsn poolId : Int)
    (entries : List LogEntryHandler) :
    Agree (Same pools) (s.openTree pools lsn poolId entries) (s'.openTree pools lsn poolId entries) := by
  unfold Replayer.openTree
  by_cases hpool : poolId ∉ pools
  · rw [if_pos hpool, if_pos hpool]
    exact .error _
  · rw [if_neg hpool, if_neg hpool]
    have hpin := h.pinned
    unfold Replayer.pinned at hpin
    rw [hnone] at hpin
    refine (getThisPage_agree h.table hpin _).bind fun a a' ha => ?_
    obtain ⟨frame, table⟩ := a
    obtain ⟨frame', table'⟩ := a'
    obtain ⟨rfl, halike, hpin'⟩ := ha
    dsimp only
    split
    · exact .error _
    · exact .ok ⟨halike.unpin _, rfl, h.log, hpin'.cons_unpin⟩

/-- The frames of this redo are pinned, so that none of them is evicted. -/
theorem redoEntry_agree {table table' : FrameTable PageId Page} {redo : TreeRedo} {page : PageId}
    (h : table.Alike table') (hpin : Pinned pools redo.pinned table) (hmem : page ∈ table.pins)
    (frame : Page) (body : LogBody) :
    Agree (fun a a' => a.2 = a'.2 ∧ a.1.Alike a'.1 ∧ Pinned pools a.2.pinned a.1)
      (redoEntry table redo page frame body) (redoEntry table' redo page frame body) := by
  have hwrite : ∀ (header : IndexFileHeader) (x : Except Fault Miniob.Common.Memory) (mark : Bool),
      Agree (fun a a' => a.2 = a'.2 ∧ a.1.Alike a'.1 ∧ Pinned pools a.2.pinned a.1)
        (do let data ← x; return (table.write page { frame with data } mark, { redo with header }))
        (do let data ← x; return (table'.write page { frame with data } mark, { redo with header })) := by
    intro header x mark
    cases x with
    | error e => exact .error e
    | ok data => exact .ok ⟨rfl, h.write hmem _ _, hpin.write _ _ _⟩
  cases body with
  | initHeaderPage fileHeader => exact hwrite fileHeader _ true
  | updateRootPage rootPageNum oldPageNum =>
    unfold redoEntry
    dsimp only
    rcases get_agree h hpin ⟨redo.poolId, firstIndexPage⟩ with
      ⟨hnone, hnone'⟩ | ⟨first, t, t', hget, hget', halike, hpin'⟩
    · rw [hnone, hnone']
      exact .error _
    · rw [hget, hget']
      refine .ok ⟨rfl, halike.write hpin'.mem _ _, (hpin'.perm ?_).write _ _ _⟩
      unfold TreeRedo.pinned
      dsimp only
      rw [List.map_append, List.map_append, List.map_cons]
      exact List.perm_middle.symm
  | _ => exact hwrite redo.header _ false

theorem Same.pinned_redo {redo : TreeRedo} (h : Same pools s s') (hredo : s.redoing = some redo) :
    Pinned pools redo.pinned s.table := by
  have hpin := h.pinned
  unfold Replayer.pinned at hpin
  rw [hredo] at hpin
  exact hpin

/-- The record ends: what it has pinned is released. -/
theorem release_same {redo : TreeRedo} {table table' : FrameTable PageId Page} (h : table.Alike table')
    (hpin : Pinned pools (redo.memo.map (⟨redo.poolId, ·⟩)) table) (hs : Same pools s s') :
    Same pools { s with table := release redo.poolId redo.memo table, redoing := none }
      { s' with table := release redo.poolId redo.memo table', redoing := none } := by
  have hpin' : Pinned pools (redo.memo.map (⟨redo.poolId, ·⟩) ++ []) table := by rwa [List.append_nil]
  obtain ⟨halike, hrest⟩ := release_alike redo.poolId h hpin'
  exact ⟨halike, rfl, hs.log, hrest⟩

/-- One step of a redo, under both histories. -/
theorem redoNext_same {redo : TreeRedo} (h : Same pools s s') (hredo : s.redoing = some redo) :
    Agree (Same pools) (s.redoNext redo) (s'.redoNext redo) := by
  have hpin := h.pinned_redo hredo
  have hframes : Pinned pools (redo.frames.map (⟨redo.poolId, ·⟩) ++ redo.memo.map (⟨redo.poolId, ·⟩))
      s.table := by
    unfold TreeRedo.pinned at hpin
    rwa [List.map_append] at hpin
  unfold Replayer.redoNext
  cases hentries : redo.entries with
  | nil =>
    obtain ⟨hset, hmemo⟩ := setLsns_alike redo.lsn redo.poolId h.table hframes
    exact .ok (release_same hset hmemo h)
  | cons entry entries =>
    dsimp only
    rcases get_agree h.table hpin ⟨redo.poolId, entry.pageNum.toInt⟩ with
      ⟨hnone, hnone'⟩ | ⟨frame, t, t', hget, hget', halike, hpin'⟩
    · rw [hnone, hnone']
      -- the frames of the record stay pinned
      have hmemo : Pinned pools (redo.memo.map (⟨redo.poolId, ·⟩)) s.table :=
        ((List.sublist_append_right _ _).append_right _).subperm.trans hframes
      exact .ok (release_same h.table hmemo h)
    · rw [hget, hget']
      dsimp only
      by_cases hlsn : frame.lsn ≥ redo.lsn
      · rw [if_pos hlsn, if_pos hlsn]
        exact .ok ⟨halike.unpin _, rfl, h.log, hpin'.cons_unpin⟩
      · rw [if_neg hlsn, if_neg hlsn]
        refine (redoEntry_agree halike (hpin'.perm ?_) hpin'.mem frame entry.body).bind fun a a' ha => ?_
        · unfold TreeRedo.pinned
          dsimp only
          rw [List.append_assoc, List.map_append, List.map_append, List.singleton_append, List.map_cons]
          exact List.perm_middle.symm
        · obtain ⟨table, redo'⟩ := a
          obtain ⟨table', redo''⟩ := a'
          obtain ⟨rfl, halike', hpin''⟩ := ha
          exact .ok ⟨halike', rfl, h.log, hpin''⟩

/-- **Step.**  Replayers that look alike go on alike. -/
theorem Same.next (h : Same pools s s') : Agree (Same pools) (s.next pools) (s'.next pools) := by
  obtain ⟨table, redoing, log⟩ := s
  obtain ⟨table', redoing', log'⟩ := s'
  obtain rfl : redoing = redoing' := h.redoing
  obtain rfl : log = log' := h.log
  unfold Replayer.next
  cases redoing with
  | some redo => exact redoNext_same h rfl
  | none =>
    cases log with
    | nil => exact .ok h
    | cons entry log =>
      obtain ⟨lsn, record⟩ := entry
      have hs : Same pools ⟨table, none, log⟩ ⟨table', none, log⟩ := ⟨h.table, rfl, rfl, h.pinned⟩
      cases record with
      | allocatePage poolId pageNum => exact replayHeader_same hs poolId _
      | deallocatePage poolId pageNum => exact replayHeader_same hs poolId _
      | record page operation => exact replayRecord_same hs lsn page operation
      | bplusTree poolId entries => exact openTree_same hs rfl lsn poolId entries
      | transaction => exact .ok hs

end Next

/-! ## Frames that are as the disk unless they are dirty -/

/-- The redo of an entry marks the frame of the entry's page. -/
def marksFrame (entry : LogEntryHandler) : Bool :=
  match entry.body with
  | .initHeaderPage _ => true
  | .updateRootPage _ _ => decide (entry.pageNum.toInt = firstIndexPage)
  | _ => false

/-- A page that is older than an entry is in a dirty frame. -/
def DirtyIfOlder (table : FrameTable PageId Page) (page : PageId) (lsn : Int) : Prop :=
  ∀ frame, table.seen page = some frame → frame.lsn < lsn → table.dirty page = true

/-- What comes next marks the frame it changes, or finds it dirty. -/
def Admitted (s : Replayer) : ReplayAction → Prop
  | .evict _ => True
  | .next =>
    match s.redoing, s.log with
    | some redo, _ =>
      match redo.entries with
      | [] => True
      | entry :: _ =>
        marksFrame entry = true ∨ DirtyIfOlder s.table ⟨redo.poolId, entry.pageNum.toInt⟩ redo.lsn
    | none, (lsn, .record page operation) :: _ => operation.marks = true ∨ DirtyIfOlder s.table page lsn
    | none, _ => True

/-- What is in frames is as the disk unless it is dirty, and the pages of the open transaction are dirty. -/
structure Clean (s : Replayer) : Prop where
  synced : s.table.Synced
  dirty : ∀ redo, s.redoing = some redo → ∀ p ∈ redo.frames, s.table.dirty ⟨redo.poolId, p⟩ = true

section Clean

variable {pools : List Int} {s : Replayer} {table : FrameTable PageId Page}

theorem Clean.of_none (hsync : s.table.Synced) (hnone : s.redoing = none) : Clean s :=
  ⟨hsync, fun redo hredo => by rw [hnone] at hredo; cases hredo⟩

theorem synced_release (h : table.Synced) (poolId : Int) (memo : List PageNum) :
    (release poolId memo table).Synced := by
  induction memo generalizing table with
  | nil => exact h
  | cons p memo ih =>
    have hsync : (table.unpin ⟨poolId, p⟩).Synced := h
    exact ih hsync

/-- Only dirty frames differ from the disk. -/
theorem synced_setLsns (h : table.Synced) (lsn poolId : Int) {frames : List PageNum}
    (hdirty : ∀ p ∈ frames, table.dirty ⟨poolId, p⟩ = true) : (setLsns lsn poolId frames table).Synced := by
  induction frames generalizing table with
  | nil => exact h
  | cons p frames ih =>
    have hp := hdirty p List.mem_cons_self
    have hrest : ∀ q ∈ frames, table.dirty ⟨poolId, q⟩ = true := fun q hq =>
      hdirty q (List.mem_cons_of_mem p hq)
    unfold setLsns
    dsimp only
    cases hf : table.frames ⟨poolId, p⟩ with
    | none => exact ih h hrest
    | some f =>
      have hsync : ((table.write ⟨poolId, p⟩ { f.page with lsn } false).unpin ⟨poolId, p⟩).Synced :=
        h.write (Or.inr hp) _
      refine ih hsync fun q hq => ?_
      show (table.write ⟨poolId, p⟩ _ false).dirty ⟨poolId, q⟩ = true
      rw [FrameTable.dirty_write, hrest q hq]
      rfl

/-- Replaying a header marks its frame. -/
theorem replayHeader_clean (h : Clean s) (hnone : s.redoing = none) (poolId : Int)
    (redo : Page → Except Fault (Option Page)) : Returns (s.replayHeader pools poolId redo) Clean := by
  unfold Replayer.replayHeader
  split
  · exact Returns.error
  · cases s.table.frames (headerPage poolId) with
    | none => exact Returns.error
    | some f =>
      dsimp only
      cases redo f.page with
      | error e => exact Returns.error
      | ok out =>
        cases out with
        | none => exact Returns.ok h
        | some page => exact Returns.ok (.of_none (h.synced.write (Or.inl rfl) page) hnone)

/-- A page that is fetched is as it was seen, and its table is synced as before. -/
theorem getThisPage_clean (h : table.Synced) (page : PageId) :
    Returns (getThisPage table page) fun out =>
      table.seen page = some out.1 ∧ out.2.Synced ∧ out.2.dirty = table.dirty := by
  unfold getThisPage
  rcases table.get_eq page with ⟨hget, -⟩ | ⟨frame, t, hget, hseen, -, -, -, -, hsync, -, hdirty⟩
  · rw [hget]
    exact Returns.error
  · rw [hget]
    exact Returns.ok ⟨hseen, hsync h, hdirty⟩

/-- A frame that is changed is marked, unless it is the empty page of the defect. -/
theorem replayRecord_clean (h : Clean s) (hnone : s.redoing = none) {lsn : Int} {page : PageId}
    {operation : RecordOperation} (hmark : operation.marks = true ∨ DirtyIfOlder s.table page lsn) :
    Returns (s.replayRecord pools lsn page operation) Clean := by
  unfold Replayer.replayRecord
  split
  · exact Returns.error
  · refine (getThisPage_clean h.synced page).bind fun out hout => ?_
    obtain ⟨frame, table⟩ := out
    obtain ⟨hseen, hsync, hdirty⟩ := hout
    dsimp only
    split
    · exact Returns.ok (.of_none hsync hnone)
    · rename_i hlsn
      cases operation.redo frame.data with
      | error e => exact Returns.error
      | ok data =>
        refine Returns.ok (.of_none (hsync.write ?_ _) hnone)
        rw [hdirty]
        exact hmark.imp_right fun hold => hold frame hseen (Int.not_le.mp hlsn)

/-- Opening a tree changes no page. -/
theorem openTree_clean (h : Clean s) (lsn poolId : Int) (entries : List LogEntryHandler) :
    Returns (s.openTree pools lsn poolId entries) Clean := by
  unfold Replayer.openTree
  split
  · exact Returns.error
  · refine (getThisPage_clean h.synced _).bind fun out hout => ?_
    obtain ⟨frame, table⟩ := out
    obtain ⟨-, hsync, -⟩ := hout
    dsimp only
    split
    · exact Returns.error
    · refine Returns.ok ⟨hsync, fun redo hredo p hp => ?_⟩
      obtain rfl := Option.some.inj hredo
      exact absurd hp List.not_mem_nil

/-- An entry leaves the frame of its page dirty. -/
theorem redoEntry_clean {redo : TreeRedo} {page : PageId} {frame : Page} {entry : LogEntryHandler}
    (h : table.Synced) (hpage : page = ⟨redo.poolId, entry.pageNum.toInt⟩)
    (hframe : (table.frames page).isSome) (hmark : marksFrame entry = true ∨ table.dirty page = true) :
    Returns (redoEntry table redo page frame entry.body) fun out =>
      out.1.Synced ∧ (∀ q, table.dirty q = true → out.1.dirty q = true) ∧ out.1.dirty page = true ∧
        out.2.frames = redo.frames ∧ out.2.poolId = redo.poolId := by
  have hkeep : ∀ (t : FrameTable PageId Page) k v mark q, t.dirty q = true →
      (t.write k v mark).dirty q = true := by
    intro t k v mark q hq
    rw [FrameTable.dirty_write, hq]
    rfl
  -- a node: the mark stays as it is
  have hnode : ∀ x : Except Fault Miniob.Common.Memory, table.dirty page = true → Returns
      (do let data ← x; return (table.write page { frame with data } false, redo)) fun out =>
        out.1.Synced ∧ (∀ q, table.dirty q = true → out.1.dirty q = true) ∧ out.1.dirty page = true ∧
          out.2.frames = redo.frames ∧ out.2.poolId = redo.poolId := by
    intro x hd
    cases x with
    | error e => exact Returns.error
    | ok data =>
      exact Returns.ok ⟨h.write (Or.inr hd) _, fun q hq => hkeep _ _ _ _ q hq, hkeep _ _ _ _ page hd, rfl, rfl⟩
  obtain ⟨pageNum, body⟩ := entry
  cases body with
  | initHeaderPage fileHeader =>
    refine Returns.ok ⟨h.write (Or.inl rfl) _, fun q hq => hkeep _ _ _ _ q hq, ?_, rfl, rfl⟩
    rw [FrameTable.dirty_write, hframe]
    simp
  | updateRootPage rootPageNum oldPageNum =>
    unfold redoEntry
    dsimp only
    rcases table.get_eq ⟨redo.poolId, firstIndexPage⟩ with
      ⟨hget, -⟩ | ⟨first, t, hget, -, -, -, hsome, -, hsync, -, hdirty⟩
    · rw [hget]
      exact Returns.error
    · rw [hget]
      refine Returns.ok ⟨(hsync h).write (Or.inl rfl) _, fun q hq => hkeep _ _ _ _ q (hdirty ▸ hq), ?_, rfl,
        rfl⟩
      rcases hmark with hmark | hmark
      · have hfirst : pageNum.toInt = firstIndexPage := of_decide_eq_true hmark
        rw [hpage, hfirst, FrameTable.dirty_write, hsome]
        simp
      · exact hkeep _ _ _ _ page (hdirty ▸ hmark)
  | _ => exact hnode _ (hmark.resolve_left Bool.false_ne_true)

/-- Each step of the redo marks the page it writes. -/
theorem redoNext_clean (h : Clean s) {redo : TreeRedo} (hredo : s.redoing = some redo)
    (hadm : Admitted s .next) : Returns (s.redoNext redo) Clean := by
  have hdirty := h.dirty redo hredo
  unfold Admitted at hadm
  rw [hredo] at hadm
  dsimp only at hadm
  -- the page of the entry is fetched first, and only a frame older than the log is written
  unfold Replayer.redoNext
  cases hentries : redo.entries with
  | nil =>
    exact Returns.ok (.of_none (synced_release (synced_setLsns h.synced _ _ hdirty) _ _) rfl)
  | cons entry entries =>
    rw [hentries] at hadm
    dsimp only
    rcases s.table.get_eq ⟨redo.poolId, entry.pageNum.toInt⟩ with
      -- no frame is left for the page: the transaction of the log ends here
      ⟨hget, -⟩ | ⟨frame, t, hget, hseen, -, -, hsome, -, hsync, -, hd⟩
    · rw [hget]
      exact Returns.ok (.of_none (synced_release h.synced _ _) rfl)
    · rw [hget]
      dsimp only
      split
      -- the frame has already seen the log: the redo goes on with the next entry
      · refine Returns.ok ⟨hsync h.synced, fun redo' hredo' p hp => ?_⟩
        obtain rfl := Option.some.inj hredo'
        exact (congrFun hd _).trans (hdirty p hp)
      -- the page is dirty afterwards: the entry marks its frame, or the frame was dirty before
      · rename_i hlsn
        have hmark : marksFrame entry = true ∨ t.dirty ⟨redo.poolId, entry.pageNum.toInt⟩ = true := by
          rw [hd]
          exact hadm.imp_right fun hold => hold frame hseen (Int.not_le.mp hlsn)
        refine Returns.bind (redoEntry_clean (hsync h.synced) ?_ hsome hmark) fun out hout => ?_
        · rfl
        obtain ⟨table, redo'⟩ := out
        obtain ⟨hsync', hkeep, hpage, hframes, hpool⟩ := hout
        refine Returns.ok ⟨hsync', fun redo'' hredo'' p hp => ?_⟩
        obtain rfl := Option.some.inj hredo''
        dsimp only at hframes hpool hp ⊢
        rw [hpool]
        rw [hframes] at hp
        -- the frames of the transaction are those of before and the one of this entry
        rcases List.mem_append.mp hp with hp | hp
        · exact hkeep _ ((congrFun hd _).trans (hdirty p hp))
        · obtain rfl := List.mem_singleton.mp hp
          exact hpage

/-- **Step.**  A step that is admitted keeps the frames clean. -/
theorem Clean.next (h : Clean s) (hadm : Admitted s .next) : Returns (s.next pools) Clean := by
  obtain ⟨table, redoing, log⟩ := s
  unfold Replayer.next
  cases redoing with
  | some redo => exact redoNext_clean h rfl hadm
  | none =>
    cases log with
    | nil => exact Returns.ok h
    | cons entry log =>
      obtain ⟨lsn, record⟩ := entry
      have hs : Clean ⟨table, none, log⟩ := .of_none h.synced rfl
      cases record with
      | allocatePage poolId pageNum => exact replayHeader_clean hs rfl poolId _
      | deallocatePage poolId pageNum => exact replayHeader_clean hs rfl poolId _
      | record page operation => exact replayRecord_clean hs rfl hadm
      | bplusTree poolId entries => exact openTree_clean hs lsn poolId entries
      | transaction => exact Returns.ok hs

end Clean

/-! ## Runs -/

/-- The files are open and the log is not yet replayed: what is in frames is as the disk unless it is
    dirty, and the header pages are pinned. -/
structure Opened (pools : List Int) (s : Replayer) : Prop where
  redoing : s.redoing = none
  synced : s.table.Synced
  held : s.table.Held
  headers : (pools.map headerPage).Subperm s.table.pins

/-- Every step of the run is admitted. -/
def AdmittedRun (pools : List Int) : Replayer → List ReplayAction → Prop
  | _, [] => True
  | s, a :: as => Admitted s a ∧ ∀ s', s.step pools a = .ok s' → AdmittedRun pools s' as

def ReplayAction.isNext : ReplayAction → Bool
  | .next => true
  | .evict _ => false

section Run

variable {pools : List Int} {s s' : Replayer} {as : List ReplayAction}

theorem Opened.same (h : Opened pools s) : Same pools s s := by
  refine ⟨⟨rfl, rfl, h.held, h.held⟩, rfl, rfl, ?_⟩
  unfold Replayer.pinned
  rw [h.redoing]
  exact h.headers

/-- An eviction is not seen, and it drops no frame of the record that is being redone. -/
theorem Same.evict (h : Same pools s s') (hclean : Clean s) (page : PageId) :
    Same pools { s with table := s.table.evict page } s' ∧
      Clean { s with table := s.table.evict page } := by
  refine ⟨⟨h.table.evict hclean.synced page, h.redoing, h.log, ?_⟩, hclean.synced.evict page, ?_⟩
  · show Pinned pools s.pinned (s.table.evict page)
    unfold Pinned
    rw [FrameTable.pins_evict]
    exact h.pinned
  · intro redo hredo p hp
    have hpin : (⟨redo.poolId, p⟩ : PageId) ∈ s.table.pins := by
      refine List.Subperm.subset (h.pinned_redo hredo) (List.mem_append_left _ ?_)
      exact List.mem_map_of_mem (List.mem_append_left _ hp)
    exact (FrameTable.dirty_evict hpin page).trans (hclean.dirty redo hredo p hp)

/-- **Run.**  A run of admitted steps goes like the same run without its evictions. -/
theorem run_agree (h : Same pools s s') (hclean : Clean s) (hadm : AdmittedRun pools s as) :
    Agree (Same pools) (s.run pools as) (s'.run pools (as.filter ReplayAction.isNext)) := by
  induction as generalizing s s' with
  | nil => exact .ok h
  | cons a as ih =>
    cases a with
    | evict page =>
      obtain ⟨hsame, hclean'⟩ := h.evict hclean page
      exact ih hsame hclean' (hadm.2 _ rfl)
    | next =>
      have hagree := h.next
      have hreturns : Returns (s.next pools) Clean := hclean.next hadm.1
      have hrest := hadm.2
      show Agree _ (s.next pools >>= fun s => s.run pools as) (s'.next pools >>= fun s => s.run pools _)
      cases hs : s.next pools with
      | error e =>
        rw [hs] at hagree
        generalize s'.next pools = out at hagree
        cases hagree
        exact .error e
      | ok s₁ =>
        rw [hs] at hagree
        generalize s'.next pools = out at hagree
        cases hagree with
        | ok hsame => exact ih hsame (hreturns s₁ hs) (hrest s₁ hs)

/-- **Recovery and evictions.**  As long as everything that is redone marks its frame, or finds it dirty,
    the recovery has the outcome and shows the pages that it has and shows without evictions. -/
theorem recovery_survives_eviction (h : Opened pools s) (hadm : AdmittedRun pools s as) :
    (s.run pools as).map (fun s => s.table.seen)
      = (s.run pools (as.filter ReplayAction.isNext)).map fun s => s.table.seen :=
  (run_agree h.same (.of_none h.synced h.redoing) hadm).map_eq fun _ _ hsame => hsame.table.seen

end Run

/-! ## One page of records -/

/-- The bytes of a page that was given back while its first slot was taken. -/
def usedPage : Page := ⟨0, fun a => if a = 28 then 1 else 0⟩

/-- A pool with its header page and such a page, and a log. -/
def usedPageReplayer (operation : RecordOperation) : Replayer where
  table :=
    { disk := fun page =>
        if page = headerPage 1 then some ⟨0, fun _ => 0⟩
        else if page = ⟨1, 1⟩ then some usedPage else none
      frames := fun page => if page = headerPage 1 then some ⟨⟨0, fun _ => 0⟩, false⟩ else none
      pins := [headerPage 1] }
  redoing := none
  log := [(5, .record ⟨1, 1⟩ operation)]

/-- A pool whose only record page has been used. -/
theorem usedPageReplayer_opened (operation : RecordOperation) : Opened [1] (usedPageReplayer operation) where
  redoing := rfl
  synced := by
    intro k f hf _
    unfold usedPageReplayer at hf ⊢
    dsimp only at hf ⊢
    by_cases hk : k = headerPage 1
    · rw [if_pos hk] at hf
      obtain rfl := Option.some.inj hf
      rw [if_pos hk]
    · rw [if_neg hk] at hf
      cases hf
  held := by
    intro k hk
    obtain rfl := List.mem_singleton.mp hk
    rfl
  headers := List.Subperm.refl _

/-- The record is deleted, and the frame evicted. -/
theorem recovery_survives_eviction_delete :
    ((usedPageReplayer (.delete 0)).run [1] [.next, .evict ⟨1, 1⟩]).isOk = true ∧
    ((usedPageReplayer (.delete 0)).run [1] [.next, .evict ⟨1, 1⟩]).map (fun s => s.table.seen)
      = ((usedPageReplayer (.delete 0)).run [1] [.next]).map fun s => s.table.seen :=
  ⟨rfl, recovery_survives_eviction (usedPageReplayer_opened _)
    ⟨Or.inl rfl, fun _ _ => ⟨trivial, fun _ _ => trivial⟩⟩⟩

/-- The page is initialised, and its frame is evicted: the page is as before. -/
theorem init_page_evicted :
    ((usedPageReplayer (.initPage 8 0 [])).run [1] [.next, .evict ⟨1, 1⟩]).map (fun s => s.table.seen)
      ≠ ((usedPageReplayer (.initPage 8 0 [])).run [1] [.next]).map fun s => s.table.seen := by
  intro h
  have hlsn := congrArg (fun x => x.toOption.map fun seen => (seen ⟨1, 1⟩).map Page.lsn) h
  have hleft : some (some (0 : Int)) = some (some 5) := hlsn
  cases hleft

end Miniob.Recovery
