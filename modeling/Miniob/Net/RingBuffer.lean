/-
  `RingBuffer` (src/observer/net/ring_buffer.cpp).

  1. The positions are `int32_t`.  `go_back` takes the size off `write_pos_` and does not go round, so
     `write_pos_` becomes negative where the data does.
  2. `read_pos` adds the capacity to `write_pos_`; from capacities above 2^30 on, the sum need not fit.
  3. While `Good` holds, the buffer is a queue: `contents` are its bytes, oldest first.
-/
import Miniob.Common.Ring

namespace Miniob.Net.Buffered

open Miniob.Common

/-- What is undefined behaviour; `outOfFuel` is a loop that has not ended. -/
inductive Fault where
  | outOfBounds
  | overflow
  | divisionByZero
  | outOfFuel
  deriving DecidableEq

/-- The return codes that are not SUCCESS. -/
inductive RC where
  | invalidArgument
  | variableNotValid
  | ioerrWrite
  | other (code : Int)
  deriving DecidableEq

structure RingBuffer where
  capacity : Nat
  buffer : Nat → UInt8
  dataSize : Nat
  writePos : Int

namespace RingBuffer

/-- The constructor. -/
def new (size : Nat) : RingBuffer := ⟨size, fun _ => 0, 0, 0⟩

def size (s : RingBuffer) : Nat := s.dataSize

def remain (s : RingBuffer) : Nat := s.capacity - s.dataSize

/-- `read_pos`. -/
def readPos (s : RingBuffer) : Except Fault Nat :=
  if s.capacity = 0 then .error .divisionByZero
  else if 2 ^ 31 ≤ s.writePos - s.dataSize + s.capacity then .error .overflow
  else .ok ((s.writePos - s.dataSize + s.capacity).tmod s.capacity).toNat

/-- `read_size` in `buffer`. -/
def readSize (s : RingBuffer) (readPos : Nat) : Nat :=
  if (readPos : Int) < s.writePos then (s.writePos - readPos).toNat else s.capacity - readPos

/-- `buffer`: the bytes that can be read at once. -/
def contiguous (s : RingBuffer) : Except Fault (List UInt8) :=
  if s.dataSize = 0 then .ok []
  else s.readPos.map fun readPos : Nat =>
    (List.range (s.readSize readPos)).map fun i => s.buffer (readPos + i)

def forward (s : RingBuffer) (size : Int) : RingBuffer × Except RC Unit :=
  if size ≤ 0 then (s, .error .invalidArgument)
  else if size > s.dataSize then (s, .error .invalidArgument)
  else ({ s with dataSize := s.dataSize - size.toNat }, .ok ())

def goBack (s : RingBuffer) (size : Int) : RingBuffer × Except RC Unit :=
  if size ≤ 0 then (s, .error .invalidArgument)
  else if size > s.dataSize then (s, .error .invalidArgument)
  else ({ s with dataSize := s.dataSize - size.toNat, writePos := s.writePos - size }, .ok ())

/-- `tmp_buf_size` in `write`. -/
def freeSize (s : RingBuffer) (readPos : Nat) : Nat :=
  if (readPos : Int) ≤ s.writePos then (s.capacity - s.writePos).toNat else (readPos - s.writePos).toNat

/-- One round of the loop in `write`. -/
def copy (s : RingBuffer) (data : List UInt8) : RingBuffer where
  capacity := s.capacity
  buffer := Ring.put s.buffer s.writePos.toNat data
  dataSize := s.dataSize + data.length
  writePos := (s.writePos + data.length).tmod s.capacity

/-- `write`: what is left of the data is what has not been written. -/
def write (s : RingBuffer) (data : List UInt8) : Except Fault (RingBuffer × List UInt8) :=
  if data = [] ∨ s.remain = 0 then .ok (s, data)
  else s.readPos.bind fun readPos =>
    let size := min data.length (s.freeSize readPos)
    if s.writePos < 0 ∨ (s.capacity : Int) < s.writePos + size then .error .outOfBounds
    else if _hsize : size = 0 then .error .outOfFuel
    else write (s.copy (data.take size)) (data.drop size)
termination_by data.length
decreasing_by
  rw [List.length_drop]
  omega

/-! ## The queue -/

/-- The bytes that have been written and not read, oldest first. -/
def contents (s : RingBuffer) : List UInt8 :=
  Ring.slice s.capacity s.buffer (s.writePos - s.dataSize + s.capacity).toNat s.dataSize

/-- The write position is inside the buffer. -/
structure Good (s : RingBuffer) : Prop where
  nonneg : 0 ≤ s.writePos
  lt : s.writePos < s.capacity
  size_le : s.dataSize ≤ s.capacity

/-- The sum in `read_pos` is an `int`. -/
def Fits (s : RingBuffer) : Prop := s.writePos - s.dataSize + s.capacity < 2 ^ 31

variable {s : RingBuffer} {data : List UInt8} {n : Int}

theorem good_new {size : Nat} (h : 0 < size) : Good (new size) := ⟨le_refl _, Int.natCast_pos.mpr h, Nat.zero_le _⟩

@[simp] theorem length_contents (s : RingBuffer) : s.contents.length = s.dataSize := Ring.length_slice

theorem readPos_eq (h : Good s) (hfits : Fits s) :
    s.readPos = .ok ((s.writePos - s.dataSize + s.capacity).toNat % s.capacity) := by
  obtain ⟨hnonneg, hlt, hsize⟩ := h
  unfold Fits at hfits
  unfold readPos
  rw [if_neg (by omega), if_neg (by omega)]
  congr 1
  have hsum : ((s.writePos - s.dataSize + s.capacity).toNat : Int) = s.writePos - s.dataSize + s.capacity :=
    Int.toNat_of_nonneg (by omega)
  rw [Int.tmod_eq_emod_of_nonneg (by omega), ← hsum, ← Int.natCast_emod, Int.toNat_natCast, Int.toNat_natCast]

/-- `go_back` that stays in front of the write position takes the last bytes off. -/
theorem goBack_good (h : Good s) (hpos : 0 < n) (hsize : n ≤ s.dataSize) (hle : n ≤ s.writePos) :
    (s.goBack n).2 = .ok () ∧ Good (s.goBack n).1 ∧
      (s.goBack n).1.contents = s.contents.take (s.dataSize - n.toNat) := by
  obtain ⟨hnonneg, hlt, hcap⟩ := h
  unfold goBack
  rw [if_neg (by omega), if_neg (by omega)]
  refine ⟨rfl, ⟨?_, ?_, ?_⟩, ?_⟩
  · show 0 ≤ s.writePos - n
    omega
  · show s.writePos - n < s.capacity
    omega
  · show s.dataSize - n.toNat ≤ s.capacity
    omega
  · unfold contents
    rw [Ring.take_slice (Nat.sub_le _ _)]
    dsimp only
    congr 1
    omega

theorem goBack_refused (h : n ≤ 0 ∨ s.dataSize < n) : s.goBack n = (s, .error .invalidArgument) := by
  unfold goBack
  split
  · rfl
  · rw [if_pos (by omega)]

theorem forward_good (h : Good s) (hpos : 0 < n) (hsize : n ≤ s.dataSize) :
    (s.forward n).2 = .ok () ∧ Good (s.forward n).1 ∧ (s.forward n).1.contents = s.contents.drop n.toNat := by
  obtain ⟨hnonneg, hlt, hcap⟩ := h
  unfold forward
  rw [if_neg (by omega), if_neg (by omega)]
  refine ⟨rfl, ⟨hnonneg, hlt, ?_⟩, ?_⟩
  · show s.dataSize - n.toNat ≤ s.capacity
    omega
  · unfold contents
    rw [Ring.drop_slice (by omega)]
    dsimp only
    congr 1
    omega

theorem forward_refused (h : n ≤ 0 ∨ s.dataSize < n) : s.forward n = (s, .error .invalidArgument) := by
  unfold forward
  split
  · rfl
  · rw [if_pos (by omega)]

/-- Where the data that is not read begins. -/
theorem start_cases (h : Good s) :
    (s.dataSize ≤ s.writePos ∧
      ((s.writePos - s.dataSize + s.capacity).toNat % s.capacity : Nat) = s.writePos - s.dataSize) ∨
    (s.writePos < s.dataSize ∧
      ((s.writePos - s.dataSize + s.capacity).toNat % s.capacity : Nat) = s.writePos - s.dataSize + s.capacity) := by
  obtain ⟨hnonneg, hlt, hcap⟩ := h
  by_cases hle : (s.dataSize : Int) ≤ s.writePos
  · refine Or.inl ⟨hle, ?_⟩
    rw [Nat.mod_eq_sub_mod (by omega), Nat.mod_eq_of_lt (by omega)]
    omega
  · refine Or.inr ⟨by omega, ?_⟩
    rw [Nat.mod_eq_of_lt (by omega)]
    omega

/-- What can be read at once is the front of the queue. -/
theorem contiguous_good (h : Good s) (hfits : Fits s) (hsize : s.dataSize ≠ 0) :
    ∃ n, 0 < n ∧ n ≤ s.dataSize ∧ s.contiguous = .ok (s.contents.take n) := by
  have hstart := start_cases h
  have hread := readPos_eq h hfits
  obtain ⟨hnonneg, hlt, hcap⟩ := h
  generalize hpos : (s.writePos - s.dataSize + s.capacity).toNat % s.capacity = readPos at hstart hread
  have hbounds : 0 < s.readSize readPos ∧ s.readSize readPos ≤ s.dataSize ∧
      readPos + s.readSize readPos ≤ s.capacity := by
    unfold readSize
    split <;> omega
  refine ⟨s.readSize readPos, hbounds.1, hbounds.2.1, ?_⟩
  unfold contiguous
  rw [if_neg hsize, hread]
  show Except.ok _ = Except.ok _
  unfold contents
  rw [Ring.take_slice hbounds.2.1]
  refine congrArg Except.ok (List.map_congr_left fun i hi => congrArg s.buffer ?_)
  have hi := List.mem_range.mp hi
  rw [← Nat.mod_add_mod, hpos, Nat.mod_eq_of_lt (by omega)]

/-- The free stretch behind the write position. -/
theorem freeSize_bounds {readPos : Nat} (h : Good s) (hroom : s.dataSize < s.capacity)
    (hpos : (s.writePos - s.dataSize + s.capacity).toNat % s.capacity = readPos) :
    0 < s.freeSize readPos ∧ s.dataSize + s.freeSize readPos ≤ s.capacity ∧
      s.writePos + s.freeSize readPos ≤ s.capacity ∧
      (s.dataSize + s.freeSize readPos < s.capacity → s.writePos + s.freeSize readPos = s.capacity) := by
  have hstart := start_cases h
  obtain ⟨hnonneg, hlt, hcap⟩ := h
  rw [hpos] at hstart
  unfold freeSize
  split <;> omega

/-- One round of the loop. -/
theorem copy_good (h : Good s) (hlen : s.dataSize + data.length ≤ s.capacity)
    (hend : s.writePos + data.length ≤ s.capacity) :
    Good (s.copy data) ∧ (s.copy data).contents = s.contents ++ data ∧
      (s.copy data).writePos = (s.writePos + data.length) % s.capacity := by
  obtain ⟨hnonneg, hlt, hcap⟩ := h
  have hwrite : (s.copy data).writePos = (s.writePos + data.length) % s.capacity :=
    Int.tmod_eq_emod_of_nonneg (by omega)
  refine ⟨⟨?_, ?_, hlen⟩, ?_, hwrite⟩
  · rw [hwrite]
    exact Int.emod_nonneg _ (by omega)
  · rw [hwrite]
    exact Int.emod_lt_of_pos _ (by show (0 : Int) < s.capacity; omega)
  · have hput := @Ring.slice_put UInt8 s.capacity (s.writePos - s.dataSize + s.capacity).toNat s.dataSize s.buffer data
      s.writePos.toNat ?_ (by omega) hlen
    · unfold contents
      rw [← hput]
      refine Ring.slice_modEq ?_
      rw [hwrite]
      show ((s.writePos + data.length) % s.capacity - (s.dataSize + data.length : Nat) + s.capacity).toNat %
        s.capacity = _
      -- the write position either moves on or goes back to the start
      by_cases hround : s.writePos + data.length < s.capacity
      · rw [Int.emod_eq_of_lt (by omega) hround]
        exact congrArg (fun sum : Int => sum.toNat % s.capacity) (by push_cast; omega)
      · have hround : s.writePos + data.length = s.capacity := by omega
        rw [hround, Int.emod_self, ← Nat.add_mod_right]
        congr 1
        omega
    · have hsum : (s.writePos - s.dataSize + s.capacity).toNat + s.dataSize = s.writePos.toNat + s.capacity := by
        omega
      rw [hsum, Nat.add_mod_right]

/-- What `write` leaves: the front of the data behind the queue, as much as there is room for. -/
structure Writes (s : RingBuffer) (data : List UInt8) (s' : RingBuffer) : Prop where
  good : Good s'
  capacity : s'.capacity = s.capacity
  contents : s'.contents = s.contents ++ data.take (s.capacity - s.dataSize)
  writePos : s'.writePos = (s.writePos + (min data.length (s.capacity - s.dataSize) : Nat)) % s.capacity

/-- Without data or without room nothing is written. -/
theorem Writes.refl (h : Good s) (hend : data = [] ∨ s.capacity - s.dataSize = 0) : Writes s data s := by
  refine ⟨h, rfl, ?_, ?_⟩
  · rcases hend with rfl | hend
    · rw [List.take_nil, List.append_nil]
    · rw [hend, List.take_zero, List.append_nil]
  · have hmin : min data.length (s.capacity - s.dataSize) = 0 := by
      rcases hend with rfl | hend
      · exact Nat.zero_min _
      · rw [hend, Nat.min_zero]
    rw [hmin, Int.natCast_zero, Int.add_zero, Int.emod_eq_of_lt h.nonneg h.lt]

section Round

variable {size : Nat}

theorem copy_dataSize (hsize : size ≤ data.length) :
    (s.copy (data.take size)).dataSize = s.dataSize + size := by
  show s.dataSize + (data.take size).length = _
  rw [List.length_take, Nat.min_eq_left hsize]

/-- The sums stay `int`s over a round. -/
theorem Fits.copy (h : Good s) (hfits : Fits s) (hsize : size ≤ data.length)
    (hlen : s.dataSize + size ≤ s.capacity) (hend : s.writePos + size ≤ s.capacity) :
    Fits (s.copy (data.take size)) := by
  have htake : (data.take size).length = size := by rw [List.length_take, Nat.min_eq_left hsize]
  obtain ⟨-, -, hpos⟩ := @copy_good s (data.take size) h (by omega) (by omega)
  unfold Fits at hfits ⊢
  rw [hpos, copy_dataSize hsize, htake]
  show (s.writePos + size) % s.capacity - (s.dataSize + size : Nat) + s.capacity < 2 ^ 31
  have hnonneg := h.nonneg
  by_cases hround : s.writePos + size < s.capacity
  · rw [Int.emod_eq_of_lt (by omega) hround]
    omega
  · rw [show s.writePos + size = s.capacity by omega, Int.emod_self]
    omega

/-- A round and what the other rounds write. -/
theorem Writes.copy {s' : RingBuffer} (h : Good s) (hsize : size ≤ data.length)
    (hlen : s.dataSize + size ≤ s.capacity) (hend : s.writePos + size ≤ s.capacity)
    (hrest : Writes (s.copy (data.take size)) (data.drop size) s') : Writes s data s' := by
  have htake : (data.take size).length = size := by rw [List.length_take, Nat.min_eq_left hsize]
  obtain ⟨-, hcontents, hpos⟩ := @copy_good s (data.take size) h (by omega) (by omega)
  obtain ⟨hgood', hcap', hcontents', hpos'⟩ := hrest
  have hleft : (s.copy (data.take size)).capacity - (s.copy (data.take size)).dataSize =
      s.capacity - s.dataSize - size := by
    rw [copy_dataSize hsize]
    show s.capacity - (s.dataSize + size) = _
    omega
  rw [hleft] at hcontents' hpos'
  refine ⟨hgood', hcap', ?_, ?_⟩
  · rw [hcontents', hcontents, List.append_assoc, ← List.take_add, Nat.add_sub_cancel' (by omega)]
  · rw [hpos', hpos, htake, List.length_drop]
    show ((s.writePos + size) % s.capacity + _) % s.capacity = _
    rw [Int.emod_add_emod]
    congr 1
    omega

end Round

/-- `write` puts the front of the data behind the queue, as much as there is room for. -/
theorem write_good (h : Good s) (hfits : Fits s) (data : List UInt8) :
    ∃ s', s.write data = .ok (s', data.drop (s.capacity - s.dataSize)) ∧ Good s' ∧ s'.capacity = s.capacity ∧
      s'.contents = s.contents ++ data.take (s.capacity - s.dataSize) ∧
      s'.writePos = (s.writePos + (min data.length (s.capacity - s.dataSize) : Nat)) % s.capacity := by
  have hwrite : ∃ s', s.write data = .ok (s', data.drop (s.capacity - s.dataSize)) ∧ Writes s data s' := by
    induction hlen : data.length using Nat.strong_induction_on generalizing s data with
    | _ n ih =>
    rw [write]
    by_cases hend : data = [] ∨ s.remain = 0
    · rw [if_pos hend]
      refine ⟨s, ?_, .refl h hend⟩
      rcases hend with rfl | hend
      · rw [List.drop_nil]
      · rw [show s.capacity - s.dataSize = 0 from hend, List.drop_zero]
    · rw [if_neg hend]
      have hdata : 0 < data.length := List.length_pos_iff.mpr fun heq => hend (Or.inl heq)
      have hroom : s.dataSize < s.capacity := by
        have : s.capacity - s.dataSize ≠ 0 := fun heq => hend (Or.inr heq)
        omega
      rw [readPos_eq h hfits]
      obtain ⟨hfree, hfit, hwithin, hround⟩ := freeSize_bounds h hroom rfl
      have hnonneg := h.nonneg
      dsimp only [Except.bind]
      -- one round copies as much as the stretch behind the write position takes
      generalize s.freeSize ((s.writePos - s.dataSize + s.capacity).toNat % s.capacity) = free at hfree hfit hwithin ⊢
      generalize hsize : min data.length free = size
      rw [if_neg (by omega), dif_neg (by omega)]
      have hle : size ≤ data.length := by omega
      have htake : (data.take size).length = size := by rw [List.length_take, Nat.min_eq_left hle]
      have hgood := (@copy_good s (data.take size) h (by omega) (by omega)).1
      obtain ⟨s', hok, hrest⟩ := ih (n - size) (by omega) hgood (hfits.copy h hle (by omega) (by omega))
        (data.drop size) (by rw [List.length_drop, hlen])
      refine ⟨s', ?_, hrest.copy h hle (by omega) (by omega)⟩
      have hleft : (s.copy (data.take size)).capacity - (s.copy (data.take size)).dataSize =
          s.capacity - s.dataSize - size := by
        rw [copy_dataSize hle]
        show s.capacity - (s.dataSize + size) = _
        omega
      rw [hok, hleft, List.drop_drop, Nat.add_sub_cancel' (by omega)]
  obtain ⟨s', hok, hgood, hcap, hcontents, hpos⟩ := hwrite
  exact ⟨s', hok, hgood, hcap, hcontents, hpos⟩

end RingBuffer

end Miniob.Net.Buffered
