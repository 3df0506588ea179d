/-
  Cells in a ring.

  `slice cap mem start n` are the `n` cells from `start` on, in a memory of `cap` cells that goes round.  `put`
  overwrites a stretch that does not go round; where that is free, the stretch comes behind the slice
  (`slice_put`).
-/
import Mathlib.Data.List.Basic
import Mathlib.Data.Nat.ModEq

namespace Miniob.Common.Ring

variable {α : Type} {cap start n m i : Nat} {mem : Nat → α} {data : List α}

def slice (cap : Nat) (mem : Nat → α) (start n : Nat) : List α :=
  (List.range n).map fun i => mem ((start + i) % cap)

/-- `data` is copied to `pos`. -/
def put (mem : Nat → α) (pos : Nat) (data : List α) (i : Nat) : α :=
  if pos ≤ i then (data[i - pos]?).getD (mem i) else mem i

@[simp] theorem length_slice : (slice cap mem start n).length = n := by
  rw [slice, List.length_map, List.length_range]

theorem getElem?_slice (h : i < n) : (slice cap mem start n)[i]? = some (mem ((start + i) % cap)) := by
  rw [slice, List.getElem?_map, List.getElem?_range h]
  rfl

/-- Slices are the same if their cells are. -/
theorem slice_congr {mem' : Nat → α} {start' : Nat}
    (h : ∀ i, i < n → mem ((start + i) % cap) = mem' ((start' + i) % cap)) :
    slice cap mem start n = slice cap mem' start' n := by
  refine List.map_congr_left fun i hi => ?_
  exact h i (List.mem_range.mp hi)

/-- The start counts modulo the capacity. -/
theorem slice_modEq {start' : Nat} (h : start % cap = start' % cap) :
    slice cap mem start n = slice cap mem start' n := by
  refine slice_congr fun i _ => ?_
  rw [Nat.add_mod, h, ← Nat.add_mod]

theorem slice_add : slice cap mem start (n + m) = slice cap mem start n ++ slice cap mem (start + n) m := by
  unfold slice
  rw [List.range_add, List.map_append, List.map_map]
  refine congrArg _ (List.map_congr_left fun i _ => ?_)
  show mem _ = mem _
  rw [Nat.add_assoc]

theorem take_slice (h : m ≤ n) : (slice cap mem start n).take m = slice cap mem start m := by
  obtain ⟨k, rfl⟩ := Nat.exists_eq_add_of_le h
  rw [slice_add, List.take_append_of_le_length (by rw [length_slice]), List.take_of_length_le (by rw [length_slice])]

theorem drop_slice (h : m ≤ n) : (slice cap mem start n).drop m = slice cap mem (start + m) (n - m) := by
  obtain ⟨k, rfl⟩ := Nat.exists_eq_add_of_le h
  have hdrop := @List.drop_left α (slice cap mem start m) (slice cap mem (start + m) k)
  rw [length_slice] at hdrop
  rw [slice_add, hdrop, Nat.add_sub_cancel_left]

/-- Cells that are not met within one round are different. -/
theorem mod_ne (hi : i < n) (h : n + m ≤ cap) {j : Nat} (hj : j < m) :
    (start + i) % cap ≠ (start + n + j) % cap := by
  intro heq
  have hdvd := (Nat.modEq_iff_dvd' (by omega : start + i ≤ start + n + j)).mp heq
  have hle := Nat.le_of_dvd (by omega) hdvd
  omega

theorem put_of_mem {pos : Nat} (h : i < data.length) : put mem pos data (pos + i) = data[i] := by
  unfold put
  rw [if_pos (Nat.le_add_right pos i), Nat.add_sub_cancel_left, List.getElem?_eq_getElem h, Option.getD_some]

theorem put_of_ne {pos : Nat} (h : ∀ j, j < data.length → i ≠ pos + j) : put mem pos data i = mem i := by
  unfold put
  split
  · rename_i hle
    rw [List.getElem?_eq_none_iff.mpr ?_, Option.getD_none]
    by_contra hlt
    exact h (i - pos) (by omega) (by omega)
  · rfl

/-- What is put at the free cells behind the slice comes behind it. -/
theorem slice_put {pos : Nat} (hpos : pos % cap = (start + n) % cap) (hcap : pos + data.length ≤ cap)
    (hfree : n + data.length ≤ cap) :
    slice cap (put mem pos data) start (n + data.length) = slice cap mem start n ++ data := by
  have hcell : ∀ j, j < data.length → (start + n + j) % cap = pos + j := by
    intro j hj
    rw [Nat.add_mod, ← hpos, ← Nat.add_mod, Nat.mod_eq_of_lt (by omega)]
  rw [slice_add]
  congr 1
  · refine slice_congr fun i hi => put_of_ne fun j hj heq => ?_
    exact mod_ne hi hfree hj (heq.trans (hcell j hj).symm)
  · refine List.ext_getElem length_slice fun j _ hj => ?_
    rw [← Option.some_inj, ← List.getElem?_eq_getElem, getElem?_slice hj, hcell j hj, put_of_mem hj]

end Miniob.Common.Ring
