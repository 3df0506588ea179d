/-
  The record file of a table, as the table and its transactions see it: a finite map from record
  identifiers to rows (`RecordFileHandler` in src/observer/storage/record/record_manager.cpp).

  A row carries the two hidden fields `__trx_xid_begin` and `__trx_xid_end` besides its data.
  `rids` is the order in which `RecordFileScanner` meets the rows: page by page, slot by slot.
  Where a new row goes is up to the file: a `Placement` answers each insertion of a statement
  with a record identifier that is free at that moment, or with an error when the file is full.
-/
import Miniob.Common.LowerBound
import Miniob.Storage.Types

namespace Miniob.Db

open Miniob.Common Miniob.Storage

/-- A record: the transaction fields and the rest of its bytes. -/
structure Row (D : Type) where
  beginXid : Int
  endXid : Int
  data : D
  deriving DecidableEq, Repr

structure RecordFile (D : Type) where
  row : RecordId → Option (Row D)
  rids : List RecordId
  sorted : rids.Pairwise fun r s => ridCmp r s = .lt
  mem_rids : ∀ rid, rid ∈ rids ↔ (row rid).isSome

namespace RecordFile

variable {D : Type}

def empty : RecordFile D where
  row _ := none
  rids := []
  sorted := .nil
  mem_rids _ := iff_of_false List.not_mem_nil Bool.false_ne_true

/-- Store `r` under `rid`: an insertion if `rid` is free, else an update. -/
def bind (f : RecordFile D) (rid : RecordId) (r : Row D) : RecordFile D where
  row rid' := if rid' = rid then some r else f.row rid'
  rids := f.rids.filter (ridCmp · rid == .lt) ++ rid :: f.rids.filter (ridCmp rid · == .lt)
  sorted := by
    refine List.pairwise_append.mpr ⟨f.sorted.filter _, List.pairwise_cons.mpr ⟨?_, f.sorted.filter _⟩, ?_⟩
    · intro s hs
      exact beq_iff_eq.mp (List.mem_filter.mp hs).2
    · intro s hs s' hs'
      have hlt := beq_iff_eq.mp (List.mem_filter.mp hs).2
      rcases List.mem_cons.mp hs' with rfl | hs'
      · exact hlt
      · exact Std.TransCmp.lt_trans hlt (beq_iff_eq.mp (List.mem_filter.mp hs').2)
  mem_rids rid' := by
    rw [List.mem_append, List.mem_cons, List.mem_filter, List.mem_filter, f.mem_rids]
    by_cases h : rid' = rid
    · simp [h]
    · rw [if_neg h]
      constructor
      · rintro (⟨hs, -⟩ | rfl | ⟨hs, -⟩)
        · exact hs
        · exact absurd rfl h
        · exact hs
      · intro hs
        cases hc : ridCmp rid' rid with
        | lt => exact Or.inl ⟨hs, rfl⟩
        | eq => exact absurd (Std.LawfulEqCmp.eq_of_compare hc) h
        | gt => exact Or.inr (Or.inr ⟨hs, beq_iff_eq.mpr (Std.OrientedCmp.lt_of_gt hc)⟩)

/-- Clear the slot of `rid`. -/
def unbind (f : RecordFile D) (rid : RecordId) : RecordFile D where
  row rid' := if rid' = rid then none else f.row rid'
  rids := f.rids.filter (· ≠ rid)
  sorted := f.sorted.filter _
  mem_rids rid' := by
    rw [List.mem_filter, f.mem_rids]
    by_cases h : rid' = rid <;> simp [h]

theorem bind_row (f : RecordFile D) (rid rid' : RecordId) (r : Row D) :
    (f.bind rid r).row rid' = if rid' = rid then some r else f.row rid' := rfl

theorem unbind_row (f : RecordFile D) (rid rid' : RecordId) :
    (f.unbind rid).row rid' = if rid' = rid then none else f.row rid' := rfl

@[simp] theorem bind_row_self (f : RecordFile D) (rid : RecordId) (r : Row D) :
    (f.bind rid r).row rid = some r := if_pos rfl

@[simp] theorem unbind_row_self (f : RecordFile D) (rid : RecordId) :
    (f.unbind rid).row rid = none := if_pos rfl

theorem bind_row_of_ne (f : RecordFile D) {rid rid' : RecordId} (r : Row D) (h : rid' ≠ rid) :
    (f.bind rid r).row rid' = f.row rid' := if_neg h

theorem unbind_row_of_ne (f : RecordFile D) {rid rid' : RecordId} (h : rid' ≠ rid) :
    (f.unbind rid).row rid' = f.row rid' := if_neg h

/-- The map determines the file: the scan order lists its domain in record identifier order. -/
theorem ext_row {f g : RecordFile D} (h : ∀ rid, f.row rid = g.row rid) : f = g := by
  have hrids : f.rids = g.rids := by
    refine eq_of_sorted_of_mem_iff id f.sorted g.sorted fun rid => ?_
    rw [f.mem_rids, g.mem_rids, h]
  obtain ⟨row, rids, _, _⟩ := f
  obtain ⟨row', rids', _, _⟩ := g
  obtain rfl : row = row' := funext h
  obtain rfl : rids = rids' := hrids
  rfl

/-- An insertion undone. -/
theorem unbind_bind {f : RecordFile D} {rid : RecordId} (h : f.row rid = none) (r : Row D) :
    (f.bind rid r).unbind rid = f := by
  refine ext_row fun rid' => ?_
  by_cases hr : rid' = rid
  · rw [hr, unbind_row_self, h]
  · rw [unbind_row_of_ne _ hr, bind_row_of_ne _ _ hr]

end RecordFile

/-- The answers of the file to the insertions of one statement, which are counted from 0: a free
    record identifier, or the error of a file that has no room. -/
structure Placement (D : Type) where
  place : Nat → RecordFile D → Except RC RecordId
  free : ∀ n f rid, place n f = .ok rid → f.row rid = none
  refused : ∀ n f rc, place n f = .error rc → rc ≠ .success

end Miniob.Db
