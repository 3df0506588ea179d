/-
  Replaying the log of a page of records (`RecordLogReplayer` in
  src/observer/storage/record/record_log.cpp) against the operations that wrote it
  (`RowRecordPageHandler` in src/observer/storage/record/record_manager.cpp).

  An operation that succeeds changes the page, writes an entry to the log and the entry's LSN into the page;
  one that fails does neither.  The entry of an insertion names the slot it took, but `replay_insert` looks
  for a slot itself.  It finds the same one, as the page it looks at is the one the insertion found.

  The log gives its LSNs in increasing order.
-/
import Miniob.Common.Run
import Miniob.Recovery.Replay

namespace Miniob.Recovery

open Miniob.Common Miniob.Common.Memory Miniob.Storage Miniob.Record

/-! ## Operations -/

inductive RecordAction where
  /-- `init_empty_page`; the row format has no column index. -/
  | initEmptyPage (recordSize : Nat)
  | insertRecord (data : List UInt8)
  | deleteRecord (slotNum : Int)
  | updateRecord (slotNum : Int) (data : List UInt8)

/-- What `RecordLogHandler` writes. -/
inductive RecordLog where
  | initPage (recordSize : Nat)
  | insert (slotNum : Nat) (data : List UInt8)
  | delete (slotNum : Int)
  | update (slotNum : Int) (data : List UInt8)

/-- A page and the log that has been written for it, with LSNs. -/
structure LoggedPage where
  page : Page
  log : List (Int × RecordLog)

/-- `init_empty_page` of a page that was just allocated, whatever its bytes are. -/
def initNewPage (recordSize : Nat) (mem : Memory) : Memory :=
  let page := RecordPage.initEmptyPage recordSize
  memset (recordBytes { page with mem }) pageHeaderSize 0 (pageBitmapSize page.header.recordCapacity)

/-- The end of an operation: what it answers, and its entry, which may name the slot that was taken. -/
def LoggedPage.finish (s : LoggedPage) (lsn : Int) (entry : Nat → RecordLog) :
    Option (RC × Option Nat × RecordPage) → Except Fault ((RC × Option Nat) × LoggedPage)
  | none => .error .undefined
  | some (rc, slot, page) =>
    if rc = .success then .ok ((rc, slot), ⟨⟨lsn, recordBytes page⟩, s.log ++ [(lsn, entry (slot.getD 0))]⟩)
    else .ok ((rc, slot), s)

/-- An action, and the LSN that the log gives its entry. -/
def LoggedPage.step (s : LoggedPage) (o : Int × RecordAction) :
    Except Fault ((RC × Option Nat) × LoggedPage) :=
  let page := recordPage s.page.data
  match o.2 with
  | .initEmptyPage recordSize =>
    .ok ((.success, none),
      ⟨⟨o.1, initNewPage recordSize s.page.data⟩, s.log ++ [(o.1, .initPage recordSize)]⟩)
  | .insertRecord data => s.finish o.1 (fun slot => .insert slot data) (page.insertRecord data)
  | .deleteRecord slotNum =>
    s.finish o.1 (fun _ => .delete slotNum) ((page.deleteRecord slotNum).map fun r => (r.1, none, r.2))
  | .updateRecord slotNum data =>
    s.finish o.1 (fun _ => .update slotNum data)
      ((page.updateRecord slotNum data).map fun r => (r.1, none, r.2))

/-! ## Replaying -/

/-- What the replayer does with an entry: the slot of an insertion is not used. -/
def RecordLog.operation : RecordLog → RecordOperation
  | initPage recordSize => .initPage recordSize 0 []
  | insert _ data => .insert data
  | delete slotNum => .delete slotNum
  | update slotNum data => .update slotNum data

/-- `RecordLogReplayer::replay`, on its page. -/
def redoRecord (page : Page) (lsn : Int) (operation : RecordOperation) : Except Fault Page :=
  if page.lsn ≥ lsn then .ok page
  else do
    let data ← operation.redo page.data
    return ⟨lsn, data⟩

/-- The log, replayed onto a page. -/
def replayRecords : Page → List (Int × RecordLog) → Except Fault Page
  | page, [] => .ok page
  | page, (lsn, entry) :: es => do
    let page ← redoRecord page lsn entry.operation
    replayRecords page es

theorem replayRecords_append (page : Page) (es es' : List (Int × RecordLog)) :
    replayRecords page (es ++ es') = replayRecords page es >>= fun page => replayRecords page es' := by
  induction es generalizing page with
  | nil => rfl
  | cons e es ih =>
    rw [List.cons_append, replayRecords, replayRecords, bind_assoc]
    exact bind_congr fun page => ih page

/-- The replayer over the buffer pools does this to the page of the entry, and nothing to the others. -/
theorem replayRecord_seen {s : Replayer} {pools : List Int} {page : PageId} {frame : Page}
    (hpool : page.poolId ∈ pools) (hseen : s.table.seen page = some frame) (lsn : Int)
    (operation : RecordOperation) :
    (s.replayRecord pools lsn page operation).map (fun s => s.table.seen)
      = (redoRecord frame lsn operation).map fun frame => Function.update s.table.seen page (some frame) := by
  unfold Replayer.replayRecord getThisPage redoRecord
  rw [if_neg (not_not.mpr hpool)]
  rcases s.table.get_eq page with ⟨-, hnone⟩ | ⟨v, t, hget, hv, hsame, -, hframe, -⟩
  · rw [hseen] at hnone
    cases hnone
  · rw [hseen] at hv
    obtain rfl := Option.some.inj hv
    rw [hget]
    by_cases hlsn : frame.lsn ≥ lsn
    · have hupdate : Function.update s.table.seen page (some frame) = s.table.seen := by
        rw [← hseen]
        exact Function.update_eq_self ..
      rw [if_pos hlsn]
      show Except.map _ (if frame.lsn ≥ lsn then _ else _) = _
      rw [if_pos hlsn]
      exact congrArg Except.ok (hsame.trans hupdate.symm)
    · rw [if_neg hlsn]
      show Except.map _ (if frame.lsn ≥ lsn then _ else _) = _
      rw [if_neg hlsn]
      cases operation.redo frame.data with
      | error e => rfl
      | ok data =>
        refine congrArg Except.ok ?_
        show (t.write page ⟨lsn, data⟩ operation.marks).seen = _
        rw [FrameTable.seen_write hframe, hsame]

/-! ## Redo and execution -/

section Redo

variable {s s' s₁ : LoggedPage} {flushed page : Page} {o : Int × RecordAction} {out : RC × Option Nat}
  {lsn : Int}

/-- An action leaves the page and the log as they are, or it writes an entry whose redo does to the page what
    the action did. -/
def StepOutcome (s s' : LoggedPage) (lsn : Int) : Prop :=
  s' = s ∨ ∃ data entry, s' = ⟨⟨lsn, data⟩, s.log ++ [(lsn, entry)]⟩ ∧
    entry.operation.redo s.page.data = .ok data

theorem finish_outcome {entry : Nat → RecordLog} {result : Option (RC × Option Nat × RecordPage)}
    (hredo : ∀ slot, (entry slot).operation.redo s.page.data
      = replayed (result.map fun r => (r.1, r.2.2)))
    (h : s.finish lsn entry result = .ok (out, s')) : StepOutcome s s' lsn := by
  rcases result with _ | ⟨rc, slot, page⟩
  · cases h
  · unfold LoggedPage.finish at h
    dsimp only at h
    by_cases hrc : rc = .success
    · rw [if_pos hrc] at h
      obtain ⟨-, rfl⟩ := Prod.mk.inj (Except.ok.inj h)
      refine Or.inr ⟨_, _, rfl, ?_⟩
      rw [hredo]
      exact if_pos hrc
    · rw [if_neg hrc] at h
      obtain ⟨-, rfl⟩ := Prod.mk.inj (Except.ok.inj h)
      exact Or.inl rfl

/-- The page that is initialised for the first time and the one that is initialised by the replayer. -/
theorem initEmptyPage_eq (recordSize : Nat) (mem : Memory) :
    initEmptyPage recordSize 0 [] mem = initNewPage recordSize mem := by
  funext a
  unfold initEmptyPage initNewPage RecordPage.initEmptyPage
  dsimp only
  exact memcpy_of_outside (by omega)

theorem step_outcome (h : s.step o = .ok (out, s')) : StepOutcome s s' o.1 := by
  obtain ⟨lsn, action⟩ := o
  cases action with
  | initEmptyPage recordSize =>
    obtain ⟨-, rfl⟩ := Prod.mk.inj (Except.ok.inj h)
    refine Or.inr ⟨_, _, rfl, ?_⟩
    show Except.ok (initEmptyPage recordSize 0 [] s.page.data) = _
    rw [initEmptyPage_eq]
  | insertRecord data =>
    have h : s.finish lsn (fun slot => .insert slot data) ((recordPage s.page.data).insertRecord data)
        = .ok (out, s') := h
    exact finish_outcome (fun _ => rfl) h
  | deleteRecord slotNum =>
    have h : s.finish lsn (fun _ => .delete slotNum)
        (((recordPage s.page.data).deleteRecord slotNum).map fun r => (r.1, none, r.2)) = .ok (out, s') := h
    refine finish_outcome (fun _ => ?_) h
    rw [Option.map_map]
    exact congrArg replayed Option.map_id_apply.symm
  | updateRecord slotNum data =>
    have h : s.finish lsn (fun _ => .update slotNum data)
        (((recordPage s.page.data).updateRecord slotNum data).map fun r => (r.1, none, r.2))
          = .ok (out, s') := h
    refine finish_outcome (fun _ => ?_) h
    rw [Option.map_map]
    exact congrArg replayed Option.map_id_apply.symm

/-- The log gives its entries LSNs in increasing order. -/
def Increasing (s : LoggedPage) (o : Int × RecordAction) : Prop := s.page.lsn < o.1

/-- What was flushed leads to the page in memory, which has seen the whole log. -/
structure Caught (flushed : Page) (s : LoggedPage) : Prop where
  seen : ∀ e ∈ s.log, e.1 ≤ s.page.lsn
  replay : replayRecords flushed s.log = .ok s.page

/-- A page that has seen its whole log stays as it is. -/
theorem Caught.of_seen (h : ∀ e ∈ s.log, e.1 ≤ s.page.lsn) : Caught s.page s := by
  obtain ⟨page, log⟩ := s
  refine ⟨h, ?_⟩
  show replayRecords page log = .ok page
  induction log with
  | nil => rfl
  | cons e log ih =>
    obtain ⟨lsn, entry⟩ := e
    have hredo : redoRecord page lsn entry.operation = .ok page := if_pos (h _ List.mem_cons_self)
    rw [replayRecords, bind_ok _ hredo]
    exact ih fun e he => h e (List.mem_cons_of_mem _ he)

/-- **Step.** -/
theorem Caught.step (h : Caught flushed s) (hlsn : Increasing s o) (hstep : s.step o = .ok (out, s')) :
    Caught flushed s' := by
  have hlsn : s.page.lsn < o.1 := hlsn
  rcases step_outcome hstep with rfl | ⟨data, entry, rfl, hredo⟩
  · exact h
  · refine ⟨fun e he => ?_, ?_⟩
    · show e.1 ≤ o.1
      rcases List.mem_append.mp he with he | he
      · have := h.seen e he
        omega
      · obtain rfl := List.mem_singleton.mp he
        exact Int.le_refl _
    · have hentry : redoRecord s.page o.1 entry.operation = .ok ⟨o.1, data⟩ := by
        unfold redoRecord
        rw [if_neg (Int.not_le.mpr hlsn), hredo]
        rfl
      show replayRecords flushed (s.log ++ [(o.1, entry)]) = _
      rw [replayRecords_append, bind_ok _ h.replay, replayRecords, bind_ok _ hentry]
      rfl

/-- A page before its initialisation, and an empty log. -/
def newPage (page : Page) : LoggedPage := ⟨page, []⟩

/-- **Redo of a page of records.**  Whatever prefix of the operations the page on disk contains, the replay
    of the whole log leads to the page that the operations led to, byte for byte. -/
theorem record_redo (h₁ : Reachable LoggedPage.step Increasing (newPage page) s₁)
    (h₂ : Reachable LoggedPage.step Increasing s₁ s) : replayRecords s₁.page s.log = .ok s.page := by
  have hnew : Caught (newPage page).page (newPage page) :=
    .of_seen fun e he => absurd he List.not_mem_nil
  have hstart : Caught page s₁ :=
    h₁.invariant (I := Caught page) hnew fun s o out s' h hlsn hstep => h.step hlsn hstep
  have hend : Caught s₁.page s :=
    h₂.invariant (I := Caught s₁.page) (.of_seen hstart.seen)
      fun s o out s' h hlsn hstep => h.step hlsn hstep
  exact hend.replay

end Redo

/-- A page is initialised and flushed, and a record of eight bytes is inserted and deleted. -/
theorem record_redo_delete : ∃ s₁ s : LoggedPage, s₁.log = [(1, .initPage 8)] ∧
    s.log = [(1, .initPage 8), (2, .insert 0 [1]), (3, .delete 0)] ∧
    replayRecords s₁.page s.log = .ok s.page := by
  have h₁ : Reachable LoggedPage.step Increasing (newPage ⟨0, fun _ => 0⟩) _ :=
    .next .init (1, .initEmptyPage 8) Int.one_pos rfl
  have h₂ : Reachable LoggedPage.step Increasing ⟨⟨1, initNewPage 8 fun _ => 0⟩, [(1, .initPage 8)]⟩ _ :=
    .next .init (2, .insertRecord [1]) (show (1 : Int) < 2 by decide) rfl
  have h₃ := h₂.next (3, .deleteRecord 0) (show (2 : Int) < 3 by decide) rfl
  exact ⟨_, _, rfl, rfl, record_redo h₁ h₃⟩

end Miniob.Recovery
