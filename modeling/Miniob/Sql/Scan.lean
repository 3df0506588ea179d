/-
  The scan of a statement that writes.

  It returns rows that the statement selects, each once (`scan_mem`, `scan_sublist`).  A scan that has come to its
  end has returned all of them (`scan_eof`); one that meets a row which another transaction holds, or a predicate that
  fails, stops there, and what it has returned is less.
-/
import Miniob.Sql.Statement

namespace Miniob.Sql

open Miniob.Common Miniob.Db Miniob.Storage Miniob.Trx

variable {D : Type} {T : Int} {f : RecordFile D} {predicate : Predicate D}

/-- A row that the transaction may write is one that it reads, and a row that it reads and may not
    write is locked. -/
theorem visible_of_writable {r : Row D} (h : Writable T r) : Visible T r := by
  rw [writable_iff] at h
  rw [visible_iff]
  omega

/-- Writing succeeds, does not see the row, or finds it locked. -/
theorem visitRecord_readWrite (T : Int) (r : Row D) :
    visitRecord T .readWrite r = .success ∨
    (visitRecord T .readWrite r = .recordInvisible ∧ ¬ Visible T r) ∨
    visitRecord T .readWrite r = .lockedConcurrencyConflict := by
  unfold Visible visitRecord
  split
  · split <;> simp
  · split
    · split <;> simp
    · split
      · dsimp only
        split <;> simp
      · simp

/-- The scan returns rows that the statement selects, each once. -/
theorem scan_mem {rid : RecordId} : ∀ {rids : List RecordId}, rid ∈ (scan T f predicate rids).2 →
    rid ∈ rids ∧ ∃ r, f.row rid = some r ∧ Writable T r ∧ predicate.eval r.data = .ok true := by
  intro rids
  induction rids with
  | nil => exact fun h => nomatch h
  | cons s rids ih =>
    intro h
    have hmono : rid ∈ (scan T f predicate rids).2 → rid ∈ s :: rids ∧
        ∃ r, f.row rid = some r ∧ Writable T r ∧ predicate.eval r.data = .ok true := by
      intro h'
      obtain ⟨hmem, hr⟩ := ih h'
      exact ⟨List.mem_cons_of_mem s hmem, hr⟩
    rw [scan] at h
    cases hr : f.row s with
    | none =>
      rw [hr] at h
      exact hmono h
    | some r =>
      rw [hr] at h
      dsimp only at h
      split at h
      · exact hmono h
      · rename_i hw
        split at h
        · cases h
        · exact hmono h
        · rename_i heval
          rcases List.mem_cons.mp h with rfl | h
          · exact ⟨by simp, r, hr, hw, heval⟩
          · exact hmono h
      · cases h

theorem scan_sublist : ∀ rids : List RecordId, (scan T f predicate rids).2.Sublist rids := by
  intro rids
  induction rids with
  | nil => exact .slnil
  | cons rid rids ih =>
    rw [scan]
    split
    · exact ih.cons rid
    · split
      · exact ih.cons rid
      · split
        · exact List.nil_sublist _
        · exact ih.cons rid
        · exact ih.cons_cons rid
      · exact List.nil_sublist _

theorem scan_ne_success : ∀ rids : List RecordId, (scan T f predicate rids).1 ≠ .success := by
  intro rids
  induction rids with
  | nil => exact nofun
  | cons rid rids ih =>
    rw [scan]
    cases f.row rid with
    | none => exact ih
    | some r =>
      dsimp only
      rcases visitRecord_readWrite T r with hvisit | ⟨hvisit, -⟩ | hvisit
      · rw [hvisit]
        dsimp only
        split
        · rename_i heval
          exact (predicate.failed _ _ heval).1
        · exact ih
        · exact ih
      · rw [hvisit]
        exact ih
      · rw [hvisit]
        nofun

/-- A scan that has come to its end has returned every row that the statement selects, and the scan
    with the predicate as a test returns the same. -/
theorem scan_eof : ∀ {rids : List RecordId}, (scan T f predicate rids).1 = .recordEof →
    (scanRecords T f (fun d => predicate.eval d = .ok true) rids).1 = .recordEof ∧
    (scanRecords T f (fun d => predicate.eval d = .ok true) rids).2.map Prod.fst =
      (scan T f predicate rids).2 ∧
    ∀ rid ∈ rids, ∀ r, f.row rid = some r → Visible T r → predicate.eval r.data = .ok true →
      rid ∈ (scan T f predicate rids).2 := by
  -- both scans go through the same records, so the induction is on these
  intro rids
  induction rids with
  | nil => exact fun _ => ⟨rfl, rfl, fun _ h => nomatch h⟩
  | cons s rids ih =>
    intro heof
    rw [scan] at heof ⊢
    rw [scanRecords]
    -- no record is in the slot: both go on
    cases hr : f.row s with
    | none =>
      rw [hr] at heof
      obtain ⟨heof', hfst, hall⟩ := ih heof
      refine ⟨heof', hfst, fun rid hrid r hr' hv heval => ?_⟩
      rcases List.mem_cons.mp hrid with rfl | hrid
      · cases hr.symm.trans hr'
      · exact hall rid hrid r hr' hv heval
    | some r =>
      rw [hr] at heof
      dsimp only at heof ⊢
      -- what the transaction sees of the record decides
      rcases visitRecord_readWrite T r with hvisit | ⟨hvisit, hnot⟩ | hvisit
      · rw [hvisit] at heof ⊢
        dsimp only at heof ⊢
        -- the record is visible: the filter is evaluated
        cases heval : predicate.eval r.data with
        | error rc =>
          rw [heval] at heof
          exact absurd heof (predicate.failed _ _ heval).2
        | ok b =>
          rw [heval] at heof
          cases b with
          | false =>
            obtain ⟨heof', hfst, hall⟩ := ih heof
            rw [if_neg (by simp)]
            refine ⟨heof', hfst, fun rid hrid r' hr' hv heval' => ?_⟩
            rcases List.mem_cons.mp hrid with rfl | hrid
            · obtain rfl := Option.some.inj (hr.symm.trans hr')
              cases heval.symm.trans heval'
            · exact hall rid hrid r' hr' hv heval'
          | true =>
            obtain ⟨heof', hfst, hall⟩ := ih heof
            rw [if_pos (by simp)]
            refine ⟨heof', by rw [List.map_cons, hfst], fun rid hrid r' hr' hv heval' => ?_⟩
            rcases List.mem_cons.mp hrid with rfl | hrid
            · exact List.mem_cons_self
            · exact List.mem_cons_of_mem s (hall rid hrid r' hr' hv heval')
      -- the record is not visible: both go on without it
      · rw [hvisit] at heof ⊢
        obtain ⟨heof', hfst, hall⟩ := ih heof
        refine ⟨heof', hfst, fun rid hrid r' hr' hv heval => ?_⟩
        rcases List.mem_cons.mp hrid with rfl | hrid
        · obtain rfl := Option.some.inj (hr.symm.trans hr')
          exact absurd hv hnot
        · exact hall rid hrid r' hr' hv heval
      -- a record that another transaction writes ends the scan, which has not come to its end then
      · rw [hvisit] at heof
        cases heof

theorem selects_iff {access : Access D} {rid : RecordId} :
    selects access predicate T f rid = true ↔ rid ∈ access.rids f ∧
      ∃ r, f.row rid = some r ∧ Visible T r ∧ predicate.eval r.data = .ok true := by
  unfold selects
  rw [Bool.and_eq_true, decide_eq_true_iff]
  refine and_congr_right fun _ => ?_
  cases f.row rid with
  | none => simp
  | some r =>
    dsimp only
    rw [Bool.and_eq_true, decide_eq_true_iff]
    cases heval : predicate.eval r.data with
    | error rc => simp [heval]
    | ok b => simp [heval]

end Miniob.Sql
