/-
  Index keys and their comparator (`KeyComparator`, `make_key`).

  A key is the user key, the bytes of the indexed attributes, followed by the record identifier.
  `attrCmp` stands for the loop over `attrs_comparator_`.  The comparator runs on buffers
  (`keyComparator`): on keys of the tree (`keyCmp`) the second half is a record identifier, on a
  caller's raw user key it is whatever follows in memory.

  `RID::min()` and `RID::max()` turn a user key into a bound: the last section says on which side
  of it a stored key lies.
-/
import Miniob.Storage.Types

namespace Miniob.Index

open Miniob.Storage

variable {U : Type}

/-- `KeyComparator::operator()`. -/
def keyComparator (unique : Bool) (attrCmp : U → U → Ordering) (v1 v2 : U × RID) : Ordering :=
  match attrCmp v1.1 v2.1 with
  | .eq => if unique then .eq else sign (RID.compare v1.2 v2.2)
  | result => result

/-- What `make_key` builds. -/
structure IndexKey (U : Type) where
  userKey : U
  rid : RecordId

/-- The key as the comparator reads it. -/
def IndexKey.buffer (key : IndexKey U) : U × RID := (key.userKey, key.rid.toRID)

/-- The comparator on the keys of the tree. -/
def keyCmp (unique : Bool) (attrCmp : U → U → Ordering) (k1 k2 : IndexKey U) : Ordering :=
  keyComparator unique attrCmp k1.buffer k2.buffer

variable {attrCmp : U → U → Ordering}

/-- A unique index does not look at the record identifier. -/
theorem keyCmp_true (k1 k2 : IndexKey U) :
    keyCmp true attrCmp k1 k2 = attrCmp k1.userKey k2.userKey := by
  rw [keyCmp, keyComparator]
  split
  · rename_i h
    exact h.symm
  · rfl

theorem keyCmp_false (k1 k2 : IndexKey U) :
    keyCmp false attrCmp k1 k2
      = (attrCmp k1.userKey k2.userKey).then (ridCmp k1.rid k2.rid) := by
  rw [keyCmp, keyComparator]
  cases h : attrCmp k1.userKey k2.userKey with
  | lt => simp [IndexKey.buffer, h]
  | eq =>
    simp only [IndexKey.buffer, h]
    rfl
  | gt => simp [IndexKey.buffer, h]

/-- An order on one component. -/
theorem transCmp_on {α β : Type} (cmp : α → α → Ordering) [Std.TransCmp cmp] (f : β → α) :
    Std.TransCmp fun a b => cmp (f a) (f b) where
  eq_swap := Std.OrientedCmp.eq_swap
  isLE_trans h₁ h₂ := Std.TransCmp.isLE_trans h₁ h₂

instance (unique : Bool) [Std.TransCmp attrCmp] : Std.TransCmp (keyCmp unique attrCmp) := by
  have hattr := transCmp_on attrCmp (IndexKey.userKey (U := U))
  have hrid := transCmp_on ridCmp (IndexKey.rid (U := U))
  cases unique with
  | true =>
    rw [show keyCmp true attrCmp = fun k1 k2 => attrCmp k1.userKey k2.userKey from
      funext fun _ => funext fun _ => keyCmp_true _ _]
    exact hattr
  | false =>
    rw [show keyCmp false attrCmp = compareLex (fun k1 k2 => attrCmp k1.userKey k2.userKey)
      (fun k1 k2 => ridCmp k1.rid k2.rid) from funext fun _ => funext fun _ => keyCmp_false _ _]
    infer_instance

/-- Two keys of a non-unique index compare equal only if they are the same pair. -/
theorem keyCmp_false_eq [Std.LawfulEqCmp attrCmp] {k1 k2 : IndexKey U} :
    keyCmp false attrCmp k1 k2 = .eq ↔ k1 = k2 := by
  rw [keyCmp_false, Ordering.then_eq_eq, Std.LawfulEqCmp.compare_eq_iff_eq,
    Std.LawfulEqCmp.compare_eq_iff_eq]
  obtain ⟨u1, r1⟩ := k1
  obtain ⟨u2, r2⟩ := k2
  simp

/-! ## Bounds -/

section Bounds

variable {k : IndexKey U} {u : U}

theorem keyCmp_min_lt : keyCmp false attrCmp k ⟨u, .min⟩ = .lt ↔ attrCmp k.userKey u = .lt := by
  rw [keyCmp_false, Ordering.then_eq_lt]
  have := ridCmp_min k.rid
  tauto

theorem keyCmp_max_gt : keyCmp false attrCmp k ⟨u, .max⟩ = .gt ↔ attrCmp k.userKey u = .gt := by
  have h : ridCmp k.rid .max ≠ .gt := fun h =>
    ridCmp_max k.rid (Std.OrientedCmp.lt_of_gt h)
  rw [keyCmp_false, Ordering.then_eq_gt]
  tauto

/-- A proper record identifier is below `RID::max()`. -/
theorem ridCmp_max_of_proper {r : RecordId} (h : r.Proper) : ridCmp r .max = .lt := by
  cases hc : ridCmp r .max with
  | lt => rfl
  | eq => exact absurd (Std.LawfulEqCmp.eq_of_compare hc) h.2
  | gt => exact absurd (Std.OrientedCmp.lt_of_gt hc) (ridCmp_max r)

/-- A proper record identifier is above `RID::min()`. -/
theorem ridCmp_min_of_proper {r : RecordId} (h : r.Proper) : ridCmp r .min = .gt := by
  cases hc : ridCmp r .min with
  | lt => exact absurd hc (ridCmp_min r)
  | eq => exact absurd (Std.LawfulEqCmp.eq_of_compare hc) h.1
  | gt => rfl

theorem keyCmp_max_lt (h : k.rid.Proper) :
    keyCmp false attrCmp k ⟨u, .max⟩ = .lt ↔ attrCmp k.userKey u ≠ .gt := by
  rw [keyCmp_false, ridCmp_max_of_proper h]
  cases attrCmp k.userKey u <;> simp

theorem keyCmp_min_gt (h : k.rid.Proper) :
    keyCmp false attrCmp k ⟨u, .min⟩ = .gt ↔ attrCmp k.userKey u ≠ .lt := by
  rw [keyCmp_false, ridCmp_min_of_proper h]
  cases attrCmp k.userKey u <;> simp

end Bounds
end Miniob.Index
