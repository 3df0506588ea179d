/-
  Visibility of a row to a transaction (`MvccTrx::visit_record` in
  src/observer/storage/trx/mvcc_trx.cpp).

  The two hidden fields hold transaction identifiers: a positive one is the identifier a
  transaction was committed with, a negative one marks the row as inserted or deleted by a
  transaction that has not committed.  `maxTrxId` in the end field means that nobody has deleted
  the row.  The branches are tried in the order of the source.
-/
import Miniob.Db.RecordFile

namespace Miniob.Trx

open Miniob.Storage Miniob.Db

/-- `enum class ReadWriteMode`. -/
inductive ReadWriteMode where
  | readOnly
  | readWrite
  deriving DecidableEq, Repr

/-- `MvccTrxKit::max_trx_id`: `numeric_limits<int32_t>::max()`. -/
def maxTrxId : Int := 2 ^ 31 - 1

variable {D : Type}

/-- `MvccTrx::visit_record` of the transaction `trxId`. -/
def visitRecord (trxId : Int) (mode : ReadWriteMode) (r : Row D) : RC :=
  if r.beginXid > 0 ∧ r.endXid > 0 then
    if trxId ≥ r.beginXid ∧ trxId ≤ r.endXid then .success else .recordInvisible
  else if r.beginXid < 0 then
    if -r.beginXid = trxId then .success else .recordInvisible
  else if r.endXid < 0 then
    match mode with
    | .readOnly => if -r.endXid ≠ trxId then .success else .recordInvisible
    | .readWrite =>
      if -r.endXid ≠ trxId then .lockedConcurrencyConflict else .recordInvisible
  else .success

/-- The row is visible to the transaction. -/
abbrev Visible (trxId : Int) (r : Row D) : Prop := visitRecord trxId .readOnly r = .success

/-- The transaction may delete or update the row. -/
abbrev Writable (trxId : Int) (r : Row D) : Prop := visitRecord trxId .readWrite r = .success

theorem visible_iff {trxId : Int} {r : Row D} : Visible trxId r ↔
    (0 < r.beginXid ∧ 0 < r.endXid ∧ r.beginXid ≤ trxId ∧ trxId ≤ r.endXid) ∨
    (r.beginXid < 0 ∧ -r.beginXid = trxId) ∨
    (0 ≤ r.beginXid ∧ r.endXid < 0 ∧ -r.endXid ≠ trxId) ∨
    (0 ≤ r.beginXid ∧ 0 ≤ r.endXid ∧ (r.beginXid = 0 ∨ r.endXid = 0)) := by
  unfold Visible visitRecord
  split
  · split <;> simp <;> omega
  · split
    · split <;> simp <;> omega
    · split
      · dsimp only
        split <;> simp <;> omega
      · simp
        omega

theorem writable_iff {trxId : Int} {r : Row D} : Writable trxId r ↔
    (0 < r.beginXid ∧ 0 < r.endXid ∧ r.beginXid ≤ trxId ∧ trxId ≤ r.endXid) ∨
    (r.beginXid < 0 ∧ -r.beginXid = trxId) ∨
    (0 ≤ r.beginXid ∧ 0 ≤ r.endXid ∧ (r.beginXid = 0 ∨ r.endXid = 0)) := by
  unfold Writable visitRecord
  split
  · split <;> simp <;> omega
  · split
    · split <;> simp <;> omega
    · split
      · dsimp only
        split <;> simp <;> omega
      · simp
        omega

/-- Reading succeeds or finds the row invisible. -/
theorem visitRecord_readOnly (trxId : Int) (r : Row D) :
    visitRecord trxId .readOnly r = .success ∨ visitRecord trxId .readOnly r = .recordInvisible := by
  unfold visitRecord
  split
  · split <;> simp
  · split
    · split <;> simp
    · split
      · dsimp only
        split <;> simp
      · simp

end Miniob.Trx
