/-
  Recovery of the record files and of the transactions (`Db::recover` in
  src/observer/storage/db/db.cpp, `RecordLogReplayer` and `MvccTrxLogReplayer`).

  * The log is replayed from its first entry.  A record entry is redone on its page unless the page
    on the disk has seen it.  An entry of a transaction raises the transaction counter to the
    identifier in its header and goes to the transaction in `trx_map_`.
  * `MvccTrxLogReplayer::replay` looks the transaction up in `trx_map_` and creates one that is not
    there, but it never puts it in.  So the map stays empty (`replayTrx_trxMap`), and `on_done` finds
    nobody to roll back.

  `recover_current` says what recovery comes to: the pages as the log leaves them, and the largest
  identifier of a header in the counter.

  Left out: the check point, which is at the start of a complete log, the replay of the indexes, and
  the log sequence numbers that a rollback in `on_done` would give the pages.
-/
import Miniob.Trx.Writes

namespace Miniob.Trx

open Miniob.Common Miniob.Db Miniob.Storage

variable {D U : Type}

/-! ## The code -/

/-- What is there while the log is replayed. -/
structure Recovery (D : Type) where
  pages : PageId → PageImage (RecordPage D)
  currentTrxId : Int
  /-- `trx_map_`: the transactions with their operations. -/
  trxMap : List (Int × List Operation)

/-- The row at a place. -/
def Recovery.row (s : Recovery D) (l : Loc) : Option (Row D) :=
  (s.pages (pageOf l)).content l.2.slotNum

/-- `MvccTrxKit::create_trx` with an identifier, as far as the counter is concerned. -/
def createTrx (currentTrxId trxId : Int) : Int :=
  if currentTrxId < trxId then trxId else currentTrxId

/-- `MvccTrx::redo`. -/
def redo (opened : TableId → Bool) (operations : List Operation) :
    MvccTrxLogOperation → Except RC (List Operation)
  | .insertRecord l =>
    if opened l.1 then .ok (operations ++ [⟨.insert, l⟩]) else .error .schemaTableNotExist
  | .deleteRecord l =>
    if opened l.1 then .ok (operations ++ [⟨.delete, l⟩]) else .error .schemaTableNotExist
  | .commit _ => .ok operations
  | .rollback => .ok operations

/-- `MvccTrxLogReplayer::replay`. -/
def Recovery.replayTrx (opened : TableId → Bool) (s : Recovery D) (trxId : Int)
    (operation : MvccTrxLogOperation) : Except RC (Recovery D) :=
  match s.trxMap.lookup trxId with
  | none => do
    -- the transaction that is created here is not put into the map
    let _ ← redo opened [] operation
    return { s with currentTrxId := createTrx s.currentTrxId trxId }
  | some operations => do
    let operations ← redo opened operations operation
    match operation with
    | .commit _ | .rollback => return { s with trxMap := s.trxMap.filter (·.1 ≠ trxId) }
    | _ => return { s with trxMap := s.trxMap.map fun entry =>
        if entry.1 = trxId then (trxId, operations) else entry }

/-- `RowRecordPageHandler::get_record`. -/
def RecordPage.getRecord (capacity : Nat) (page : RecordPage D) (slotNum : Int) :
    Except RC (Row D) :=
  if slotNum ≥ capacity then .error .recordInvalidRid
  else match page slotNum with
    | none => .error .recordNotExist
    | some r => .ok r

/-- Replace the record at a place. -/
def setRecord (pages : PageId → PageImage (RecordPage D)) (l : Loc) (r : Option (Row D)) :
    PageId → PageImage (RecordPage D) :=
  let image := pages (pageOf l)
  PageLog.setPage pages (pageOf l) { image with content := image.content.set l.2.slotNum r }

/-- The loop of `MvccTrx::rollback` of a transaction that is recovering; the operations are listed
    from the last one to the first. -/
def rollbackRecovering (capacity : TableId → Nat) (trxId : Int) :
    List Operation → (PageId → PageImage (RecordPage D)) →
      Except RC (PageId → PageImage (RecordPage D))
  | [], pages => .ok pages
  | op :: ops, pages =>
    match op.type, (pages (pageOf op.loc)).content.getRecord (capacity op.loc.1) op.loc.2.slotNum with
    | .insert, .ok r =>
      if r.beginXid ≠ -trxId then rollbackRecovering capacity trxId ops pages
      else rollbackRecovering capacity trxId ops (setRecord pages op.loc none)
    | .insert, .error .recordNotExist => rollbackRecovering capacity trxId ops pages
    | .insert, .error _ => .ok pages
    | .delete, .ok r =>
      if r.endXid ≠ -trxId then rollbackRecovering capacity trxId ops pages
      else rollbackRecovering capacity trxId ops
        (setRecord pages op.loc (some { r with endXid := maxTrxId }))
    -- the `ASSERT` behind `visit_record`
    | .delete, .error rc => .error rc

/-- `MvccTrxLogReplayer::on_done`. -/
def onDone (capacity : TableId → Nat) :
    List (Int × List Operation) → (PageId → PageImage (RecordPage D)) →
      Except RC (PageId → PageImage (RecordPage D))
  | [], pages => .ok pages
  | (trxId, operations) :: trxMap, pages => do
    let pages ← rollbackRecovering capacity trxId operations.reverse pages
    onDone capacity trxMap pages

/-- `IntegratedLogReplayer::replay` of the entry with the number `lsn`. -/
def Recovery.replay (capacity : TableId → Nat) (opened : TableId → Bool) (lsn : Nat)
    (s : Recovery D) : LogEntry D → Except RC (Recovery D)
  | .trx trxId operation => s.replayTrx opened trxId operation
  | e =>
    match e.table with
    | none => .error .internal
    | some tid =>
      if opened tid then do
        let pages ← (pageLog capacity).redoEntry lsn e s.pages
        return { s with pages }
      -- `BufferPoolManager::get_buffer_pool` knows no such file
      else .error .internal

/-- `DiskLogHandler::replay`; `n` entries are behind. -/
def Recovery.replayLog (capacity : TableId → Nat) (opened : TableId → Bool) :
    Nat → List (LogEntry D) → Recovery D → Except RC (Recovery D)
  | _, [], s => .ok s
  | n, e :: es, s => do
    let s ← s.replay capacity opened (n + 1) e
    replayLog capacity opened (n + 1) es s

/-- `Db::recover`. -/
def recover (capacity : TableId → Nat) (opened : TableId → Bool) (log : List (LogEntry D))
    (pages : PageId → PageImage (RecordPage D)) : Except RC (Recovery D) := do
  let s ← Recovery.replayLog capacity opened 0 log { pages, currentTrxId := 0, trxMap := [] }
  let pages ← onDone capacity s.trxMap s.pages
  return { s with pages, trxMap := [] }

/-! ## What it comes to -/

/-- What an entry makes of the counter. -/
def LogEntry.counter (currentTrxId : Int) : LogEntry D → Int
  | .trx trxId _ => createTrx currentTrxId trxId
  | _ => currentTrxId

section Recover

variable {capacity : TableId → Nat} {opened : TableId → Bool}

theorem redo_ok {operations : List Operation} {T : Int} {operation : MvccTrxLogOperation}
    (hopened : ∀ tid, (LogEntry.trx T operation : LogEntry D).table = some tid → opened tid) :
    ∃ operations', redo opened operations operation = .ok operations' := by
  cases operation with
  | insertRecord l => exact ⟨_, if_pos (hopened l.1 rfl)⟩
  | deleteRecord l => exact ⟨_, if_pos (hopened l.1 rfl)⟩
  | commit c => exact ⟨_, rfl⟩
  | rollback => exact ⟨_, rfl⟩

/-- No transaction gets into the map. -/
theorem replayTrx_trxMap {s : Recovery D} {T : Int} {operation : MvccTrxLogOperation}
    (hmap : s.trxMap = [])
    (hopened : ∀ tid, (LogEntry.trx T operation : LogEntry D).table = some tid → opened tid) :
    s.replayTrx opened T operation
      = .ok { s with currentTrxId := createTrx s.currentTrxId T } := by
  obtain ⟨operations', hredo⟩ : ∃ operations', redo opened [] operation = .ok operations' :=
    redo_ok hopened
  unfold Recovery.replayTrx
  rw [hmap]
  exact bind_ok _ hredo

theorem replay_record {n : Nat} {s : Recovery D} {e : LogEntry D}
    {pages' : PageId → PageImage (RecordPage D)} (hmap : s.trxMap = [])
    (hopened : ∀ tid, e.table = some tid → opened tid)
    (h : (pageLog capacity).redoEntry n e s.pages = .ok pages') :
    s.replay capacity opened n e
      = .ok { pages := pages', currentTrxId := e.counter s.currentTrxId, trxMap := [] } := by
  have hrecord : ∀ tid, opened tid → (if opened tid then do
        let pages ← (pageLog capacity).redoEntry n e s.pages
        return { s with pages }
      else .error .internal) = Except.ok (ε := RC)
        { pages := pages', currentTrxId := s.currentTrxId, trxMap := [] } := by
    intro tid htid
    rw [if_pos htid, h, ← hmap]
    rfl
  cases e with
  | trx T operation =>
    obtain rfl := Except.ok.inj h
    rw [← hmap]
    exact replayTrx_trxMap hmap hopened
  | insert l r => exact hrecord l.1 (hopened l.1 rfl)
  | delete l => exact hrecord l.1 (hopened l.1 rfl)
  | update l r => exact hrecord l.1 (hopened l.1 rfl)

theorem replayLog_redo : ∀ {log : List (LogEntry D)} {n : Nat} {s : Recovery D}
    {pages' : PageId → PageImage (RecordPage D)}, s.trxMap = [] →
      (∀ e ∈ log, ∀ tid, e.table = some tid → opened tid) →
      (pageLog capacity).redoLog n log s.pages = .ok pages' →
      Recovery.replayLog capacity opened n log s
        = .ok { pages := pages', currentTrxId := log.foldl LogEntry.counter s.currentTrxId,
                trxMap := [] }
  | [], n, s, pages', hmap, _, h => by
    obtain rfl := Except.ok.inj h
    rw [← hmap]
    rfl
  | e :: es, n, s, pages', hmap, hopened, h => by
    obtain ⟨pages₁, he, hes⟩ := ok_of_bind h
    have hreplay := replay_record hmap (hopened e (by simp)) he
    exact (bind_ok _ hreplay).trans (replayLog_redo rfl
      (fun e' he' => hopened e' (List.mem_cons_of_mem e he')) hes)

/-- The pages on the disk after a crash, of which the log `log` survives: each of them is as it was
    after the entry whose number it carries, which is in the log on the disk before the page
    (`BufferPoolLogHandler::flush_page`). -/
def Survives (capacity : TableId → Nat) (log : List (LogEntry D))
    (pages : PageId → PageImage (RecordPage D)) : Prop :=
  ∀ p, (pages p).lsn ≤ log.length ∧ ∃ pages', (pageLog capacity).applyLog
    (log.take (pages p).lsn) (fun _ _ => none) = .ok pages' ∧ (pages p).content = pages' p

theorem Survives.current {log : List (LogEntry D)} {pages : PageId → PageImage (RecordPage D)}
    (h : Survives capacity log pages) (p : PageId) :
    PageLog.Current (pageLog capacity) 0 log (fun _ _ => none) p (pages p) := by
  obtain ⟨hle, pages', happly, hc⟩ := h p
  cases hlsn : (pages p).lsn with
  | zero =>
    rw [hlsn] at happly
    obtain rfl := Except.ok.inj happly
    exact Or.inl ⟨Nat.le_of_eq hlsn, hc⟩
  | succ j =>
    rw [hlsn] at happly hle
    exact Or.inr ⟨j, pages', hle, by omega, happly, hc⟩

/-- Recovery succeeds; it leads to the pages that the log leads to. -/
theorem recover_current {log : List (LogEntry D)} {pages : PageId → PageImage (RecordPage D)}
    {pages' : PageId → RecordPage D} (hdisk : Survives capacity log pages)
    (hopened : ∀ e ∈ log, ∀ tid, e.table = some tid → opened tid)
    (happly : (pageLog capacity).applyLog log (fun _ _ => none) = .ok pages') :
    ∃ s, recover capacity opened log pages = .ok s ∧ s.currentTrxId = log.foldl LogEntry.counter 0 ∧
      ∀ l, s.row l = pages' (pageOf l) l.2.slotNum := by
  obtain ⟨disk', hredo, hcontent⟩ := PageLog.redoLog_current hdisk.current happly
  refine ⟨⟨disk', log.foldl LogEntry.counter 0, []⟩, ?_, rfl, fun l => ?_⟩
  · exact (bind_ok _ (replayLog_redo rfl hopened hredo)).trans rfl
  · exact congrFun (hcontent (pageOf l)) l.2.slotNum

end Recover

/-! ## The counter -/

/-- The counter after recovery is the largest identifier in a header. -/
theorem foldl_counter_le {x : Int} : ∀ {log : List (LogEntry D)} {c : Int},
    x ≤ log.foldl LogEntry.counter c ↔
      x ≤ c ∨ ∃ T operation, .trx T operation ∈ log ∧ x ≤ T
  | [], c => by simp
  | e :: es, c => by
    rw [List.foldl_cons, foldl_counter_le]
    have hcounter : x ≤ e.counter c ↔ x ≤ c ∨ ∃ T operation, .trx T operation = e ∧ x ≤ T := by
      cases e with
      | trx T operation =>
        show x ≤ createTrx c T ↔ _
        unfold createTrx
        constructor
        · intro h
          by_cases hT : x ≤ T
          · exact Or.inr ⟨T, operation, rfl, hT⟩
          · split at h <;> omega
        · rintro (h | ⟨T', operation', heq, hT⟩)
          · split <;> omega
          · obtain ⟨rfl, -⟩ := LogEntry.trx.inj heq
            split <;> omega
      | insert l r => exact ⟨Or.inl, fun h => h.resolve_right fun ⟨_, _, heq, _⟩ => nomatch heq⟩
      | delete l => exact ⟨Or.inl, fun h => h.resolve_right fun ⟨_, _, heq, _⟩ => nomatch heq⟩
      | update l r => exact ⟨Or.inl, fun h => h.resolve_right fun ⟨_, _, heq, _⟩ => nomatch heq⟩
    rw [hcounter]
    constructor
    · rintro ((h | ⟨T, operation, rfl, hT⟩) | ⟨T, operation, hmem, hT⟩)
      · exact Or.inl h
      · exact Or.inr ⟨T, operation, by simp, hT⟩
      · exact Or.inr ⟨T, operation, List.mem_cons_of_mem e hmem, hT⟩
    · rintro (h | ⟨T, operation, hmem, hT⟩)
      · exact Or.inl (Or.inl h)
      · rcases List.mem_cons.mp hmem with heq | hmem
        · exact Or.inl (Or.inr ⟨T, operation, heq, hT⟩)
        · exact Or.inr ⟨T, operation, hmem, hT⟩

end Miniob.Trx
