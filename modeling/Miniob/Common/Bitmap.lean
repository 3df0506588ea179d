/-
  Bytes in memory, and a bitmap in them (`Bitmap` in deps/common/lang/bitmap.cpp).

  A bitmap is a pointer and a size; its bits are read and written in the bytes behind the pointer,
  whatever else these bytes are.  `getBit_setBit` and `getBit_clearBit` say what a write does to the
  bits, `nextUnsettedBit_eq_some` what the search finds, and `setBits` counts the bits that are set.
-/
import Mathlib.Data.List.GetD

namespace Miniob.Common

/-! ## Memory -/

/-- A byte for each address. -/
abbrev Memory := Nat → UInt8

namespace Memory

/-- `memcpy` of the first `n` bytes of `src`. -/
def memcpy (mem : Memory) (dst : Nat) (src : List UInt8) (n : Nat) : Memory := fun a =>
  if dst ≤ a ∧ a < dst + n then src.getD (a - dst) 0 else mem a

def memset (mem : Memory) (dst : Nat) (c : UInt8) (n : Nat) : Memory := fun a =>
  if dst ≤ a ∧ a < dst + n then c else mem a

/-- The `n` bytes from `src` on. -/
def load (mem : Memory) (src n : Nat) : List UInt8 := (List.range n).map fun i => mem (src + i)

@[simp] theorem length_load (mem : Memory) (src n : Nat) : (load mem src n).length = n := by
  rw [load, List.length_map, List.length_range]

theorem load_congr {mem mem' : Memory} {src n : Nat}
    (h : ∀ a, src ≤ a → a < src + n → mem a = mem' a) : load mem src n = load mem' src n := by
  refine List.map_congr_left fun i hi => ?_
  have hi' := List.mem_range.mp hi
  exact h _ (by omega) (by omega)

theorem memcpy_of_outside {mem : Memory} {dst n a : Nat} {src : List UInt8}
    (h : a < dst ∨ dst + n ≤ a) : memcpy mem dst src n a = mem a := by
  refine if_neg ?_
  omega

/-- What has been copied is there. -/
theorem load_memcpy_self (mem : Memory) (dst : Nat) (src : List UInt8) :
    load (memcpy mem dst src src.length) dst src.length = src := by
  apply List.ext_getElem
  · rw [length_load]
  · intro i hi hi'
    rw [length_load] at hi
    have hin : dst ≤ dst + i ∧ dst + i < dst + src.length := by omega
    have hsub : dst + i - dst = i := by omega
    simp only [load, List.getElem_map, List.getElem_range, memcpy, if_pos hin, hsub]
    exact List.getD_eq_getElem src 0 hi

/-- What lies elsewhere stays. -/
theorem load_memcpy_of_disjoint {mem : Memory} {dst n src' n' : Nat} {src : List UInt8}
    (h : src' + n' ≤ dst ∨ dst + n ≤ src') :
    load (memcpy mem dst src n) src' n' = load mem src' n' := by
  refine load_congr fun a hle hlt => memcpy_of_outside ?_
  omega

/-- A part of what has been copied. -/
theorem load_memcpy_within {mem : Memory} {dst n i m : Nat} {src : List UInt8} (hin : i + m ≤ n)
    (hsrc : n ≤ src.length) : load (memcpy mem dst src n) (dst + i) m = (src.drop i).take m := by
  apply List.ext_getElem
  · rw [length_load, List.length_take, List.length_drop]
    omega
  · intro j hj hj'
    rw [length_load] at hj
    have hrange : dst ≤ dst + i + j ∧ dst + i + j < dst + n := by omega
    have hsub : dst + i + j - dst = i + j := by omega
    simp only [load, List.getElem_map, List.getElem_range, memcpy, if_pos hrange, hsub,
      List.getElem_take, List.getElem_drop]
    exact List.getD_eq_getElem src 0 (by omega)

/-- Bytes that are copied to where they are. -/
theorem memcpy_load_self (mem : Memory) (dst n : Nat) : memcpy mem dst (load mem dst n) n = mem := by
  funext a
  unfold memcpy
  split
  · rename_i h
    have hlt : a - dst < (load mem dst n).length := by
      rw [length_load]
      omega
    have haddr : dst + (a - dst) = a := by omega
    rw [List.getD_eq_getElem _ 0 hlt]
    simp only [load, List.getElem_map, List.getElem_range, haddr]
  · rfl

end Memory

/-! ## Bits of a byte -/

/-- `1 << k`. -/
def bitMask (k : Nat) : UInt8 := 1 <<< UInt8.ofNat k

/-- `byte & (1 << k)`, as a condition. -/
def testBit (byte : UInt8) (k : Nat) : Bool := (byte &&& bitMask k) != 0

theorem getLsbD_bitMask {k j : Nat} (hk : k < 8) (hj : j < 8) :
    (bitMask k).toBitVec.getLsbD j = decide (j = k) := by
  have hall : ∀ k' j' : Fin 8, (bitMask k').toBitVec.getLsbD j' = decide ((j' : Nat) = k') := by
    decide
  exact hall ⟨k, hk⟩ ⟨j, hj⟩

/-- The masks of the code are the bits of the byte. -/
theorem testBit_eq_getLsbD {byte : UInt8} {k : Nat} (hk : k < 8) :
    testBit byte k = byte.toBitVec.getLsbD k := by
  have hand : ∀ j, j < 8 → (byte &&& bitMask k).toBitVec.getLsbD j
      = (byte.toBitVec.getLsbD j && decide (j = k)) := by
    intro j hj
    rw [UInt8.toBitVec_and, BitVec.getLsbD_and, getLsbD_bitMask hk hj]
  unfold testBit
  cases hbit : byte.toBitVec.getLsbD k with
  | false =>
    have hzero : byte &&& bitMask k = 0 := by
      apply UInt8.toBitVec_inj.mp
      apply BitVec.eq_of_getLsbD_eq
      intro j hj
      rw [hand j hj]
      by_cases hjk : j = k
      · rw [hjk, hbit]
        simp
      · simp [hjk]
    simp [hzero]
  | true =>
    have hne : byte &&& bitMask k ≠ 0 := by
      intro hzero
      have hk' := hand k hk
      rw [hzero, hbit] at hk'
      simp at hk'
    simpa using hne

theorem testBit_or {byte : UInt8} {k j : Nat} (hk : k < 8) (hj : j < 8) :
    testBit (byte ||| bitMask k) j = (decide (j = k) || testBit byte j) := by
  rw [testBit_eq_getLsbD hj, testBit_eq_getLsbD hj, UInt8.toBitVec_or, BitVec.getLsbD_or,
    getLsbD_bitMask hk hj, Bool.or_comm]

theorem testBit_and_not {byte : UInt8} {k j : Nat} (hk : k < 8) (hj : j < 8) :
    testBit (byte &&& ~~~bitMask k) j = (!decide (j = k) && testBit byte j) := by
  rw [testBit_eq_getLsbD hj, testBit_eq_getLsbD hj, UInt8.toBitVec_and, UInt8.toBitVec_not,
    BitVec.getLsbD_and, BitVec.getLsbD_not, getLsbD_bitMask hk hj, Bool.and_comm]
  simp [hj]

/-! ## The bitmap -/

/-- Where the bits are and how many there are. -/
structure Bitmap where
  bitmap : Nat
  size : Nat

/-- `find_first_zero`. -/
def findFirstZero (byte : UInt8) (start : Nat) : Option Nat :=
  (List.range' start (8 - start)).find? fun i => !testBit byte i

/-- `bytes`. -/
def bytesOfBits (size : Nat) : Nat := if size % 8 = 0 then size / 8 else size / 8 + 1

namespace Bitmap

variable (b : Bitmap) (mem : Memory)

def getBit (index : Nat) : Bool := testBit (mem (b.bitmap + index / 8)) (index % 8)

def setBit (index : Nat) : Memory := fun a =>
  if a = b.bitmap + index / 8 then mem a ||| bitMask (index % 8) else mem a

def clearBit (index : Nat) : Memory := fun a =>
  if a = b.bitmap + index / 8 then mem a &&& ~~~bitMask (index % 8) else mem a

/-- The loop of `next_unsetted_bit`: `left` bytes from byte `iter` on. -/
def nextUnsettedLoop (iter startInByte : Nat) : Nat → Option Nat
  | 0 => none
  | left + 1 =>
    let byte := mem (b.bitmap + iter)
    if byte ≠ 255 then
      match findFirstZero byte startInByte with
      | some indexInByte => some (iter * 8 + indexInByte)
      | none => nextUnsettedLoop (iter + 1) 0 left
    else nextUnsettedLoop (iter + 1) 0 left

/-- `next_unsetted_bit`; `none` is -1. -/
def nextUnsettedBit (start : Nat) : Option Nat :=
  match b.nextUnsettedLoop mem (start / 8) (start % 8) (bytesOfBits b.size - start / 8) with
  | some ret => if ret ≥ b.size then none else some ret
  | none => none

/-- The number of bits that are set. -/
def setBits : Nat := (List.range b.size).countP (b.getBit mem)

variable {b mem}

theorem getBit_congr {mem' : Memory} {index : Nat}
    (h : mem (b.bitmap + index / 8) = mem' (b.bitmap + index / 8)) :
    b.getBit mem index = b.getBit mem' index := by
  unfold getBit
  rw [h]

/-- One bit is set, and the others stay. -/
theorem getBit_setBit (index j : Nat) :
    b.getBit (b.setBit mem index) j = (decide (j = index) || b.getBit mem j) := by
  have hj := Nat.mod_lt j (show 8 > 0 by decide)
  have hk := Nat.mod_lt index (show 8 > 0 by decide)
  unfold getBit setBit
  by_cases hbyte : j / 8 = index / 8
  · rw [hbyte, if_pos rfl, testBit_or hk hj]
    have heq : j % 8 = index % 8 ↔ j = index := by omega
    simp only [heq]
  · have haddr : b.bitmap + j / 8 ≠ b.bitmap + index / 8 := by omega
    have hne : j ≠ index := fun h => hbyte (by rw [h])
    rw [if_neg haddr]
    simp [hne]

/-- One bit is cleared, and the others stay. -/
theorem getBit_clearBit (index j : Nat) :
    b.getBit (b.clearBit mem index) j = (!decide (j = index) && b.getBit mem j) := by
  have hj := Nat.mod_lt j (show 8 > 0 by decide)
  have hk := Nat.mod_lt index (show 8 > 0 by decide)
  unfold getBit clearBit
  by_cases hbyte : j / 8 = index / 8
  · rw [hbyte, if_pos rfl, testBit_and_not hk hj]
    have heq : j % 8 = index % 8 ↔ j = index := by omega
    simp only [heq]
  · have haddr : b.bitmap + j / 8 ≠ b.bitmap + index / 8 := by omega
    have hne : j ≠ index := fun h => hbyte (by rw [h])
    rw [if_neg haddr]
    simp [hne]

theorem setBit_of_outside {index a : Nat} (h : a ≠ b.bitmap + index / 8) :
    b.setBit mem index a = mem a := if_neg h

theorem clearBit_of_outside {index a : Nat} (h : a ≠ b.bitmap + index / 8) :
    b.clearBit mem index a = mem a := if_neg h

/-! ### The search -/

theorem findFirstZero_eq_none {byte : UInt8} {start : Nat} (h : findFirstZero byte start = none)
    {i : Nat} (hle : start ≤ i) (hlt : i < 8) : testBit byte i = true := by
  have hall := List.find?_eq_none.mp h i (List.mem_range'_1.mpr ⟨hle, by omega⟩)
  simpa using hall

/-- The bit that is found is the first one that is clear. -/
theorem findFirstZero_eq_some {byte : UInt8} {start i : Nat} (h : findFirstZero byte start = some i) :
    start ≤ i ∧ i < 8 ∧ testBit byte i = false ∧
      ∀ j, start ≤ j → j < i → testBit byte j = true := by
  obtain ⟨hzero, as, bs, hsplit, hbefore⟩ := List.find?_eq_some_iff_append.mp h
  have hmem : i ∈ List.range' start (8 - start) := by rw [hsplit]; simp
  have hrange := List.mem_range'_1.mp hmem
  refine ⟨hrange.1, by omega, by simpa using hzero, fun j hle hlt => ?_⟩
  have hj : j ∈ List.range' start (8 - start) := List.mem_range'_1.mpr ⟨hle, by omega⟩
  have hsorted : (as ++ i :: bs).Pairwise (· < ·) := hsplit ▸ List.pairwise_lt_range' _
  rw [hsplit, List.mem_append, List.mem_cons] at hj
  rcases hj with hj | rfl | hj
  · simpa using hbefore j hj
  · omega
  · have := List.rel_of_pairwise_cons (List.pairwise_append.mp hsorted).2.1 hj
    omega

/-- A byte that is all ones has no clear bit. -/
theorem testBit_all_ones {k : Nat} (hk : k < 8) : testBit 255 k = true := by
  have hall : ∀ k' : Fin 8, testBit 255 k' = true := by decide
  exact hall ⟨k, hk⟩

/-- The first number from `lo` on and below `hi` that fails `p`, if there is one. -/
def FirstFailing (p : Nat → Bool) (lo hi : Nat) : Option Nat → Prop
  | some i => lo ≤ i ∧ i < hi ∧ p i = false ∧ ∀ j, lo ≤ j → j < i → p j = true
  | none => ∀ j, lo ≤ j → j < hi → p j = true

/-- A part of the range that passes can be left out. -/
theorem FirstFailing.skip {p : Nat → Bool} {lo mid hi : Nat} {r : Option Nat} (hle : lo ≤ mid)
    (hpass : ∀ j, lo ≤ j → j < mid → p j = true) (h : FirstFailing p mid hi r) :
    FirstFailing p lo hi r := by
  cases r with
  | none =>
    intro j hlo hhi
    by_cases hj : j < mid
    · exact hpass j hlo hj
    · exact h j (by omega) hhi
  | some i =>
    obtain ⟨hi₁, hi₂, hfail, hbefore⟩ := h
    refine ⟨by omega, hi₂, hfail, fun j hlo hlt => ?_⟩
    by_cases hj : j < mid
    · exact hpass j hlo hj
    · exact hbefore j (by omega) hlt

/-- The loop finds the first clear bit of its bytes. -/
theorem nextUnsettedLoop_spec (left : Nat) : ∀ iter startInByte : Nat, startInByte ≤ 8 →
    FirstFailing (b.getBit mem) (iter * 8 + startInByte) ((iter + left) * 8)
      (b.nextUnsettedLoop mem iter startInByte left) := by
  induction left with
  | zero =>
    intro iter startInByte hstart j hle hlt
    omega
  | succ left ih =>
    intro iter startInByte hstart
    -- the bits of this byte
    have hget : ∀ j, j / 8 = iter → b.getBit mem j = testBit (mem (b.bitmap + iter)) (j % 8) := by
      intro j hj
      rw [getBit, hj]
    -- a byte without a clear bit is passed over
    have hskip : (∀ k, startInByte ≤ k → k < 8 → testBit (mem (b.bitmap + iter)) k = true) →
        FirstFailing (b.getBit mem) (iter * 8 + startInByte) ((iter + (left + 1)) * 8)
          (b.nextUnsettedLoop mem (iter + 1) 0 left) := by
      intro hfull
      have hrest := ih (iter + 1) 0 (by omega)
      rw [show (iter + 1) * 8 + 0 = (iter + 1) * 8 by omega,
        show iter + 1 + left = iter + (left + 1) by omega] at hrest
      refine hrest.skip (by omega) fun j hle hlt => ?_
      rw [hget j (by omega)]
      exact hfull _ (by omega) (by omega)
    rw [nextUnsettedLoop]
    by_cases hones : mem (b.bitmap + iter) = 255
    · rw [if_neg (not_not.mpr hones)]
      exact hskip fun k _ hk => by rw [hones, testBit_all_ones hk]
    · rw [if_pos hones]
      cases hfind : findFirstZero (mem (b.bitmap + iter)) startInByte with
      | none => exact hskip fun k hle hlt => findFirstZero_eq_none hfind hle hlt
      | some k =>
        obtain ⟨hle, hlt, hzero, hbefore⟩ := findFirstZero_eq_some hfind
        refine ⟨by omega, by omega, ?_, fun j hlo hj => ?_⟩
        · rw [hget _ (by omega), show (iter * 8 + k) % 8 = k by omega]
          exact hzero
        · rw [hget j (by omega)]
          exact hbefore _ (by omega) (by omega)

/-- The search finds the first clear bit. -/
theorem nextUnsettedBit_spec (start : Nat) :
    FirstFailing (b.getBit mem) start b.size (b.nextUnsettedBit mem start) := by
  have hloop : FirstFailing (b.getBit mem) _ _ _ :=
    nextUnsettedLoop_spec (bytesOfBits b.size - start / 8) (start / 8) (start % 8) (by omega)
  rw [show start / 8 * 8 + start % 8 = start by omega] at hloop
  have hend : b.size ≤ (start / 8 + (bytesOfBits b.size - start / 8)) * 8 := by
    unfold bytesOfBits
    split <;> omega
  unfold nextUnsettedBit
  cases hret : b.nextUnsettedLoop mem (start / 8) (start % 8) (bytesOfBits b.size - start / 8) with
  | none =>
    rw [hret] at hloop
    exact fun j hle hlt => hloop j hle (by omega)
  | some i =>
    rw [hret] at hloop
    obtain ⟨hle, -, hclear, hbefore⟩ := hloop
    dsimp only
    split
    · exact fun j hle' hlt => hbefore j hle' (by omega)
    · exact ⟨hle, by omega, hclear, hbefore⟩

/-! ### The number of set bits -/

theorem countP_range_succ (p : Nat → Bool) (n : Nat) :
    (List.range (n + 1)).countP p = (List.range n).countP p + if p n = true then 1 else 0 := by
  rw [List.range_succ, List.countP_append, List.countP_singleton]

/-- One more number passes. -/
theorem countP_range_add {p q : Nat → Bool} {i : Nat} (hp : p i = false) (hq : q i = true)
    (hsame : ∀ j, j ≠ i → q j = p j) (n : Nat) :
    (List.range n).countP q = (List.range n).countP p + if i < n then 1 else 0 := by
  induction n with
  | zero => rfl
  | succ n ih =>
    rw [countP_range_succ, countP_range_succ, ih]
    by_cases hn : n = i
    · subst hn
      simp [hp, hq]
    · rw [hsame n hn]
      have hlt : i < n + 1 ↔ i < n := by omega
      simp only [hlt]
      omega

theorem setBits_congr {mem' : Memory} (h : ∀ i, i < b.size → b.getBit mem i = b.getBit mem' i) :
    b.setBits mem = b.setBits mem' :=
  List.countP_congr fun i hi => by rw [h i (List.mem_range.mp hi)]

theorem setBits_le : b.setBits mem ≤ b.size := by
  have hle := List.countP_le_length (p := b.getBit mem) (l := List.range b.size)
  rwa [List.length_range] at hle

theorem setBits_setBit {index : Nat} (hlt : index < b.size) (hclear : b.getBit mem index = false) :
    b.setBits (b.setBit mem index) = b.setBits mem + 1 := by
  have hadd := countP_range_add (q := b.getBit (b.setBit mem index)) hclear
    (by rw [getBit_setBit]; simp) (fun j hj => by rw [getBit_setBit]; simp [hj]) b.size
  rwa [if_pos hlt] at hadd

theorem setBits_clearBit {index : Nat} (hlt : index < b.size) (hset : b.getBit mem index = true) :
    b.setBits mem = b.setBits (b.clearBit mem index) + 1 := by
  have hadd := countP_range_add (p := b.getBit (b.clearBit mem index)) (q := b.getBit mem)
    (by rw [getBit_clearBit]; simp) hset (fun j hj => by rw [getBit_clearBit]; simp [hj]) b.size
  rwa [if_pos hlt] at hadd

/-- A bitmap has a clear bit if not all bits are counted. -/
theorem exists_clear (h : b.setBits mem < b.size) : ∃ i, i < b.size ∧ b.getBit mem i = false := by
  refine Classical.byContradiction fun hcon => ?_
  have hall : ∀ i ∈ List.range b.size, b.getBit mem i = true := by
    intro i hi
    cases hbit : b.getBit mem i with
    | true => rfl
    | false => exact absurd ⟨i, List.mem_range.mp hi, hbit⟩ hcon
  have hcount := List.countP_eq_length.mpr hall
  rw [List.length_range] at hcount
  exact absurd hcount (Nat.ne_of_lt h)

end Bitmap

end Miniob.Common
