/-
  The two searches of a bitmap (`Bitmap::next_setted_bit`, `Bitmap::next_unsetted_bit` in
  deps/common/lang/bitmap.cpp).

  1. `nextSettedBit` is written like `nextUnsettedBit`, with the two tests of a byte the other way.
  2. `nextSettedLoop_eq`: a search for a set bit is a search for a clear bit of the negated bytes,
     so one loop lemma serves both.
  3. `settedFrom`: the bits that are met by searching again behind each bit that was found.
  4. `next_bit_least`: what the two searches return, for any size, any bytes and any start.
-/
import Mathlib.Data.List.Find
import Miniob.Common.Bitmap

namespace Miniob.Common

/-! ## Negated bytes -/

theorem testBit_not {byte : UInt8} {k : Nat} (hk : k < 8) : testBit (~~~byte) k = !testBit byte k := by
  rw [testBit_eq_getLsbD hk, testBit_eq_getLsbD hk, UInt8.toBitVec_not, BitVec.getLsbD_not]
  simp [hk]

/-- A byte without a set bit, seen through its complement. -/
theorem not_eq_ones {byte : UInt8} : ~~~byte = 255 ↔ byte = 0 := by
  constructor
  · intro h
    rw [← UInt8.not_not (a := byte), h]
    rfl
  · intro h
    rw [h]
    rfl

/-- The memory with every byte negated. -/
def Memory.negate (mem : Memory) : Memory := fun a => ~~~mem a

/-! ## The search for a set bit -/

/-- `find_first_setted`. -/
def findFirstSetted (byte : UInt8) (start : Nat) : Option Nat :=
  (List.range' start (8 - start)).find? fun i => testBit byte i

theorem findFirstSetted_eq (byte : UInt8) (start : Nat) :
    findFirstSetted byte start = findFirstZero (~~~byte) start := by
  apply List.find?_congr
  intro i hi
  have hrange := List.mem_range'_1.mp hi
  rw [testBit_not (by omega), Bool.not_not]

namespace Bitmap

variable (b : Bitmap) (mem : Memory)

/-- The loop of `next_setted_bit`: `left` bytes from byte `iter` on. -/
def nextSettedLoop (iter startInByte : Nat) : Nat → Option Nat
  | 0 => none
  | left + 1 =>
    let byte := mem (b.bitmap + iter)
    if byte ≠ 0 then
      match findFirstSetted byte startInByte with
      | some indexInByte => some (iter * 8 + indexInByte)
      | none => nextSettedLoop (iter + 1) 0 left
    else nextSettedLoop (iter + 1) 0 left

/-- `next_setted_bit`; `none` is -1. -/
def nextSettedBit (start : Nat) : Option Nat :=
  match b.nextSettedLoop mem (start / 8) (start % 8) (bytesOfBits b.size - start / 8) with
  | some ret => if ret ≥ b.size then none else some ret
  | none => none

variable {b mem}

theorem getBit_negate (index : Nat) : b.getBit mem.negate index = !b.getBit mem index :=
  testBit_not (Nat.mod_lt index (by decide))

/-- Looking for a set bit is looking for a clear one in the complement. -/
theorem nextSettedLoop_eq (left : Nat) : ∀ iter startInByte : Nat,
    b.nextSettedLoop mem iter startInByte left
      = b.nextUnsettedLoop mem.negate iter startInByte left := by
  induction left with
  | zero =>
    intro iter startInByte
    rfl
  | succ left ih =>
    intro iter startInByte
    have hskip : mem (b.bitmap + iter) ≠ 0 ↔ mem.negate (b.bitmap + iter) ≠ 255 :=
      not_congr not_eq_ones.symm
    rw [nextSettedLoop, nextUnsettedLoop, findFirstSetted_eq, ih]
    simp only [hskip]
    rfl

theorem nextSettedBit_eq (start : Nat) :
    b.nextSettedBit mem start = b.nextUnsettedBit mem.negate start := by
  rw [nextSettedBit, nextSettedLoop_eq]
  rfl

/-- The search finds the first set bit. -/
theorem nextSettedBit_spec (start : Nat) :
    FirstFailing (fun i => !b.getBit mem i) start b.size (b.nextSettedBit mem start) := by
  have hfirst : FirstFailing (b.getBit mem.negate) start b.size (b.nextSettedBit mem start) := by
    rw [nextSettedBit_eq]
    exact nextUnsettedBit_spec start
  have hbits : b.getBit mem.negate = fun i => !b.getBit mem i := funext getBit_negate
  rwa [hbits] at hfirst

/-! ## What a search returns -/

/-- What is found is the first one. -/
theorem FirstFailing.eq_some_iff {p : Nat → Bool} {lo hi : Nat} {r : Option Nat}
    (h : FirstFailing p lo hi r) (i : Nat) :
    r = some i ↔ lo ≤ i ∧ i < hi ∧ p i = false ∧ ∀ j, lo ≤ j → j < i → p j = true := by
  constructor
  · intro hr
    rw [hr] at h
    exact h
  · rintro ⟨hlo, hhi, hfail, hbefore⟩
    cases r with
    | none =>
      -- nothing fails below `hi`, but `i` does
      have hpass := h i hlo hhi
      rw [hfail] at hpass
      cases hpass
    | some k =>
      obtain ⟨hk₁, -, hk₂, hk₃⟩ := h
      rcases Nat.lt_trichotomy k i with hlt | heq | hgt
      · have hpass := hbefore k hk₁ hlt
        rw [hk₂] at hpass
        cases hpass
      · rw [heq]
      · have hpass := hk₃ i hlo hgt
        rw [hfail] at hpass
        cases hpass

/-- If nothing is found there is nothing. -/
theorem FirstFailing.eq_none_iff {p : Nat → Bool} {lo hi : Nat} {r : Option Nat}
    (h : FirstFailing p lo hi r) : r = none ↔ ∀ j, lo ≤ j → j < hi → p j = true := by
  constructor
  · intro hr
    rw [hr] at h
    exact h
  · intro hall
    cases r with
    | none => rfl
    | some k =>
      have hpass := hall k h.1 h.2.1
      rw [h.2.2.1] at hpass
      cases hpass

/-! ## Enumeration by searches -/

variable (b mem) in
/-- The set bits from `start` on. -/
def settedFrom (start : Nat) : List Nat := (List.range' start (b.size - start)).filter (b.getBit mem)

/-- The list of the bits that are set from a start on. -/
theorem mem_settedFrom {start i : Nat} :
    i ∈ b.settedFrom mem start ↔ start ≤ i ∧ i < b.size ∧ b.getBit mem i = true := by
  rw [settedFrom, List.mem_filter, List.mem_range'_1]
  constructor
  · rintro ⟨⟨hlo, hhi⟩, hbit⟩
    exact ⟨hlo, by omega, hbit⟩
  · rintro ⟨hlo, hhi, hbit⟩
    exact ⟨⟨hlo, by omega⟩, hbit⟩

theorem settedFrom_ascending (start : Nat) : (b.settedFrom mem start).Pairwise (· < ·) :=
  (List.pairwise_lt_range' (s := start) (n := b.size - start)).sublist List.filter_sublist

/-- A found bit lies within the size. -/
theorem nextSettedBit_range {start i : Nat} (h : b.nextSettedBit mem start = some i) :
    start ≤ i ∧ i < b.size := by
  have hspec := @nextSettedBit_spec b mem start
  rw [h] at hspec
  exact ⟨hspec.1, hspec.2.1⟩

/-- Nothing is found where there is nothing. -/
theorem settedFrom_of_none {start : Nat} (h : b.nextSettedBit mem start = none) :
    b.settedFrom mem start = [] := by
  have hspec := @nextSettedBit_spec b mem start
  rw [FirstFailing.eq_none_iff hspec] at h
  rw [List.eq_nil_iff_forall_not_mem]
  intro i hi
  obtain ⟨hlo, hhi, hbit⟩ := mem_settedFrom.mp hi
  have hclear := h i hlo hhi
  rw [hbit] at hclear
  cases hclear

/-- The bit that is found comes first, and the search goes on behind it. -/
theorem settedFrom_of_some {start i : Nat} (h : b.nextSettedBit mem start = some i) :
    b.settedFrom mem start = i :: b.settedFrom mem (i + 1) := by
  obtain ⟨hlo, hhi, hbit, hbefore⟩ := (FirstFailing.eq_some_iff (@nextSettedBit_spec b mem start) i).mp h
  have hsplit : List.range' start (b.size - start)
      = List.range' start (i - start) ++ i :: List.range' (i + 1) (b.size - (i + 1)) := by
    rw [show b.size - start = i - start + (b.size - (i + 1) + 1) by omega, ← List.range'_append_1,
      List.range'_succ, show start + (i - start) = i by omega]
  have hskip : (List.range' start (i - start)).filter (b.getBit mem) = [] := by
    rw [List.filter_eq_nil_iff]
    intro j hj
    have hrange := List.mem_range'_1.mp hj
    have hclear := hbefore j hrange.1 (by omega)
    rw [Bool.not_eq_true'] at hclear
    rw [hclear]
    exact Bool.false_ne_true
  rw [settedFrom, hsplit, List.filter_append, hskip, List.nil_append, List.filter_cons,
    if_pos (by simpa using hbit), settedFrom]

theorem nextSettedBit_of_nil {start : Nat} (h : b.settedFrom mem start = []) :
    b.nextSettedBit mem start = none := by
  cases hnext : b.nextSettedBit mem start with
  | none => rfl
  | some i =>
    rw [settedFrom_of_some hnext] at h
    cases h

/-- The search goes through this list. -/
theorem nextSettedBit_of_cons {start i : Nat} {rest : List Nat} (h : b.settedFrom mem start = i :: rest) :
    b.nextSettedBit mem start = some i ∧ b.settedFrom mem (i + 1) = rest := by
  cases hnext : b.nextSettedBit mem start with
  | none =>
    rw [settedFrom_of_none hnext] at h
    cases h
  | some j =>
    rw [settedFrom_of_some hnext] at h
    obtain ⟨rfl, hrest⟩ := List.cons.inj h
    exact ⟨rfl, hrest⟩

/-- **The searches are exact.**  Each returns the least index that is not before `start`, lies
    within the size and has its bit set (clear), and -1 exactly if there is none. -/
theorem next_bit_least (b : Bitmap) (mem : Memory) (start : Nat) :
    (∀ i, b.nextSettedBit mem start = some i ↔
      start ≤ i ∧ i < b.size ∧ b.getBit mem i = true ∧
        ∀ j, start ≤ j → j < i → b.getBit mem j = false) ∧
    (b.nextSettedBit mem start = none ↔
      ∀ j, start ≤ j → j < b.size → b.getBit mem j = false) ∧
    (∀ i, b.nextUnsettedBit mem start = some i ↔
      start ≤ i ∧ i < b.size ∧ b.getBit mem i = false ∧
        ∀ j, start ≤ j → j < i → b.getBit mem j = true) ∧
    (b.nextUnsettedBit mem start = none ↔
      ∀ j, start ≤ j → j < b.size → b.getBit mem j = true) := by
  have hset := @nextSettedBit_spec b mem start
  have hclear := @nextUnsettedBit_spec b mem start
  refine ⟨fun i => ?_, ?_, hclear.eq_some_iff, hclear.eq_none_iff⟩
  · rw [FirstFailing.eq_some_iff hset]
    simp only [Bool.not_eq_true', Bool.not_eq_false']
  · rw [FirstFailing.eq_none_iff hset]
    simp only [Bool.not_eq_true']

end Bitmap

end Miniob.Common
