/-
  Cyclic checks as shift registers, over registers of any width and any polynomial.

  1. The register takes one bit at a time: it is shifted down, and where the bit that falls out differs from the one
     that comes in, the polynomial is added (`feed`).  Addition is exclusive or, so all of this is linear.
  2. If the polynomial has its top bit, that bit of the register tells whether it was added.  So a step can be taken
     back, and the upper part of the register after a step says what the upper part was before
     (`shiftRight_of_feed`).
  3. `burst_detected`: messages of one length that differ only in a window that is no longer than the register leave
     different registers.
  4. `register_byte`: eight steps are one look-up in a table of 256 entries and a shift by eight.
-/
import Mathlib.Data.List.Basic

namespace Miniob.Common.ShiftRegister

variable {w : Nat}

/-- One bit goes in.  The lowest bit falls out. -/
def feed (poly c : BitVec w) (bit : Bool) : BitVec w :=
  if (c.getLsbD 0 ^^ bit) = true then (c >>> 1) ^^^ poly else c >>> 1

def register (poly c : BitVec w) (bits : List Bool) : BitVec w := bits.foldl (feed poly) c

variable {poly c c' x y : BitVec w} {b b' : Bool} {bits bits' : List Bool}

@[simp] theorem register_nil : register poly c [] = c := rfl

@[simp] theorem register_cons : register poly c (b :: bits) = register poly (feed poly c b) bits := rfl

theorem register_append : register poly c (bits ++ bits') = register poly (register poly c bits) bits' :=
  List.foldl_append

/-! ## Taking steps back -/

theorem shiftRight_ext {k : Nat} (h : ∀ i, k ≤ i → c.getLsbD i = c'.getLsbD i) : c >>> k = c' >>> k := by
  apply BitVec.eq_of_getLsbD_eq
  intro i _
  rw [BitVec.getLsbD_ushiftRight, BitVec.getLsbD_ushiftRight]
  exact h (k + i) (Nat.le_add_right k i)

theorem getLsbD_of_shiftRight {k i : Nat} (h : c >>> k = c' >>> k) (hi : k ≤ i) : c.getLsbD i = c'.getLsbD i := by
  have hbit := congrArg (fun z : BitVec w => z.getLsbD (i - k)) h
  simp only [BitVec.getLsbD_ushiftRight] at hbit
  rwa [show k + (i - k) = i by omega] at hbit

/-- The bits of a step. -/
theorem getLsbD_feed (i : Nat) :
    (feed poly c b).getLsbD i = (c.getLsbD (1 + i) ^^ ((c.getLsbD 0 ^^ b) && poly.getLsbD i)) := by
  unfold feed
  cases c.getLsbD 0 ^^ b with
  | true =>
    rw [if_pos rfl, BitVec.getLsbD_xor, BitVec.getLsbD_ushiftRight, Bool.true_and]
  | false =>
    rw [if_neg Bool.false_ne_true, BitVec.getLsbD_ushiftRight, Bool.false_and, Bool.xor_false]

/-- The top bit tells whether the polynomial was added. -/
theorem getLsbD_feed_top (hw : 0 < w) (hpoly : poly.getLsbD (w - 1) = true) :
    (feed poly c b).getLsbD (w - 1) = (c.getLsbD 0 ^^ b) := by
  rw [getLsbD_feed, hpoly, Bool.and_true, BitVec.getLsbD_of_ge c (1 + (w - 1)) (by omega), Bool.false_xor]

/-- Registers that agree above a bit after a step agree above the next one before it, and the same bit fell out. -/
theorem shiftRight_of_feed (hpoly : poly.getLsbD (w - 1) = true) {k : Nat} (hk : k < w)
    (h : feed poly c b >>> k = feed poly c' b' >>> k) :
    (c.getLsbD 0 ^^ b) = (c'.getLsbD 0 ^^ b') ∧ c >>> (k + 1) = c' >>> (k + 1) := by
  have hout : (c.getLsbD 0 ^^ b) = (c'.getLsbD 0 ^^ b') := by
    have htop := getLsbD_of_shiftRight h (show k ≤ w - 1 by omega)
    rwa [getLsbD_feed_top (by omega) hpoly, getLsbD_feed_top (by omega) hpoly] at htop
  refine ⟨hout, shiftRight_ext fun i hi => ?_⟩
  have hbit := getLsbD_of_shiftRight h (show k ≤ i - 1 by omega)
  rw [getLsbD_feed, getLsbD_feed, hout, show 1 + (i - 1) = i by omega] at hbit
  exact (Bool.xor_left_inj).mp hbit

/-- The same for several steps, with as many bits on both sides. -/
theorem shiftRight_of_register (hpoly : poly.getLsbD (w - 1) = true) {k : Nat} (hlength : bits.length = bits'.length)
    (hk : k + bits.length ≤ w) (h : register poly c bits >>> k = register poly c' bits' >>> k) :
    c >>> (k + bits.length) = c' >>> (k + bits.length) := by
  induction bits generalizing bits' c c' with
  | nil =>
    obtain rfl := List.length_eq_zero_iff.mp hlength.symm
    exact h
  | cons b bits ih =>
    cases bits' with
    | nil => cases hlength
    | cons b' bits' =>
      rw [List.length_cons] at hk
      have hrest := ih (Nat.succ.inj hlength) (by omega) h
      exact (shiftRight_of_feed hpoly (by omega) hrest).2

theorem feed_injective (hw : 0 < w) (hpoly : poly.getLsbD (w - 1) = true) (h : feed poly c b = feed poly c' b) :
    c = c' := by
  have hsame : feed poly c b >>> 0 = feed poly c' b >>> 0 := by rw [h]
  obtain ⟨hout, hrest⟩ := shiftRight_of_feed hpoly hw hsame
  apply BitVec.eq_of_getLsbD_eq
  intro i _
  cases i with
  | zero => exact (Bool.xor_left_inj).mp hout
  | succ i => exact getLsbD_of_shiftRight hrest (by omega)

/-- Different registers stay different over the same bits. -/
theorem register_injective (hw : 0 < w) (hpoly : poly.getLsbD (w - 1) = true)
    (h : register poly c bits = register poly c' bits) : c = c' := by
  induction bits generalizing c c' with
  | nil => exact h
  | cons b bits ih => exact feed_injective hw hpoly (ih h)

/-- Different bits, no more than the register has, leave different registers. -/
theorem bits_of_register (hpoly : poly.getLsbD (w - 1) = true) (hlength : bits.length = bits'.length)
    (hle : bits.length ≤ w) (h : register poly c bits = register poly c bits') : bits = bits' := by
  induction bits generalizing bits' c with
  | nil => exact (List.length_eq_zero_iff.mp hlength.symm).symm
  | cons b bits ih =>
    cases bits' with
    | nil => cases hlength
    | cons b' bits' =>
      have htail : bits.length = bits'.length := Nat.succ.inj hlength
      rw [List.length_cons] at hle
      have hsame : register poly (feed poly c b) bits >>> 0 = register poly (feed poly c b') bits' >>> 0 := by
        rw [← register_cons, ← register_cons, h]
      have hback : feed poly c b >>> (0 + bits.length) = feed poly c b' >>> (0 + bits.length) :=
        shiftRight_of_register hpoly htail (by omega) hsame
      obtain rfl : b = b' := (Bool.xor_right_inj).mp (shiftRight_of_feed hpoly (by omega) hback).1
      rw [ih htail (by omega) h]

/-- **A burst is detected.**  Two messages differ in one window that fits into the register. -/
theorem burst_detected (hw : 0 < w) (hpoly : poly.getLsbD (w - 1) = true) {before behind : List Bool}
    (hlength : bits.length = bits'.length) (hle : bits.length ≤ w)
    (h : register poly c (before ++ bits ++ behind) = register poly c (before ++ bits' ++ behind)) : bits = bits' := by
  simp only [register_append] at h
  exact bits_of_register hpoly hlength hle (register_injective hw hpoly h)

/-! ## Linearity -/

theorem feed_xor : feed poly (x ^^^ y) (b ^^ b') = feed poly x b ^^^ feed poly y b' := by
  apply BitVec.eq_of_getLsbD_eq
  intro i _
  simp only [BitVec.getLsbD_xor, getLsbD_feed]
  cases x.getLsbD (1 + i) <;> cases y.getLsbD (1 + i) <;> cases x.getLsbD 0 <;> cases y.getLsbD 0 <;> cases b <;>
    cases b' <;> cases poly.getLsbD i <;> rfl

theorem register_xor (h : bits.length = bits'.length) :
    register poly (x ^^^ y) (List.zipWith xor bits bits') = register poly x bits ^^^ register poly y bits' := by
  induction bits generalizing bits' x y with
  | nil =>
    obtain rfl := List.length_eq_zero_iff.mp h.symm
    rfl
  | cons b bits ih =>
    cases bits' with
    | nil => cases h
    | cons b' bits' =>
      rw [List.zipWith_cons_cons, register_cons, feed_xor]
      exact ih (Nat.succ.inj h)

/-- Zeros shift out what is zero anyway. -/
theorem register_zeros_of_low (n : Nat) (h : ∀ i < n, x.getLsbD i = false) :
    register poly x (List.replicate n false) = x >>> n := by
  induction n generalizing x with
  | zero => exact (BitVec.ushiftRight_zero x).symm
  | succ n ih =>
    have hfeed : feed poly x false = x >>> 1 := by
      unfold feed
      rw [h 0 (Nat.succ_pos n), if_neg (by decide)]
    rw [List.replicate_succ, register_cons, hfeed, ih, ← BitVec.shiftRight_add, Nat.add_comm]
    intro i hi
    rw [BitVec.getLsbD_ushiftRight]
    exact h (1 + i) (by omega)

/-- The lowest bits, the first one first. -/
def lowBits (n : Nat) (x : BitVec w) : List Bool := (List.range n).map x.getLsbD

theorem lowBits_succ (n : Nat) (x : BitVec w) : lowBits (n + 1) x = x.getLsbD 0 :: lowBits n (x >>> 1) := by
  unfold lowBits
  rw [List.range_succ_eq_map, List.map_cons, List.map_map]
  refine congrArg (x.getLsbD 0 :: ·) (List.map_congr_left fun i _ => ?_)
  rw [BitVec.getLsbD_ushiftRight]
  exact congrArg x.getLsbD (Nat.add_comm i 1)

/-- A register that meets its own bits is shifted only. -/
theorem register_lowBits (n : Nat) : register poly x (lowBits n x) = x >>> n := by
  induction n generalizing x with
  | zero => exact (BitVec.ushiftRight_zero x).symm
  | succ n ih =>
    have hfeed : feed poly x (x.getLsbD 0) = x >>> 1 := by
      unfold feed
      rw [Bool.xor_self, if_neg Bool.false_ne_true]
    rw [lowBits_succ, register_cons, hfeed, ih, ← BitVec.shiftRight_add, Nat.add_comm]

/-- Bits that come in may as well be added beforehand. -/
theorem register_eq_zeros (n : Nat) (hy : y >>> n = 0#w) :
    register poly c (lowBits n y) = register poly (c ^^^ y) (List.replicate n false) := by
  have hself : List.zipWith xor (lowBits n y) (lowBits n y) = List.replicate n false := by
    rw [List.zipWith_self]
    unfold lowBits
    rw [List.map_map]
    refine List.eq_replicate_iff.mpr ⟨by rw [List.length_map, List.length_range], fun b hb => ?_⟩
    obtain ⟨i, -, rfl⟩ := List.mem_map.mp hb
    exact Bool.xor_self _
  rw [← hself, register_xor rfl, register_lowBits, hy, BitVec.xor_zero]

/-! ## Bytes -/

/-- The entry of a table for a number of the lowest bits. -/
def tableEntry (poly : BitVec w) (n : Nat) (i : BitVec w) : BitVec w := register poly i (List.replicate n false)

/-- A mask for the lowest bits. -/
def lowMask (w n : Nat) : BitVec w := BitVec.ofNat w (1 <<< n - 1)

theorem getLsbD_lowMask {n i : Nat} (hi : i < w) : (lowMask w n).getLsbD i = decide (i < n) := by
  unfold lowMask
  rw [BitVec.getLsbD_ofNat, Nat.one_shiftLeft, Nat.testBit_two_pow_sub_one]
  simp [hi]

/-- **Several bits at once**: a look-up with the lowest bits, and a shift. -/
theorem register_byte (n : Nat) (hy : y >>> n = 0#w) :
    register poly c (lowBits n y) = tableEntry poly n ((c ^^^ y) &&& lowMask w n) ^^^ (c >>> n) := by
  have hsplit : c ^^^ y = ((c ^^^ y) &&& lowMask w n) ^^^ ((c ^^^ y) &&& ~~~ lowMask w n) := by
    apply BitVec.eq_of_getLsbD_eq
    intro i hi
    simp only [BitVec.getLsbD_xor, BitVec.getLsbD_and, BitVec.getLsbD_not, hi, decide_true, Bool.true_and]
    cases c.getLsbD i ^^ y.getLsbD i <;> cases (lowMask w n).getLsbD i <;> rfl
  have hzeros : List.zipWith xor (List.replicate n false) (List.replicate n false) = List.replicate n false := by
    rw [List.zipWith_self, List.map_replicate]
    rfl
  have hlow : ∀ i < n, ((c ^^^ y) &&& ~~~ lowMask w n).getLsbD i = false := by
    intro i hi
    by_cases hiw : i < w
    · rw [BitVec.getLsbD_and, BitVec.getLsbD_not, getLsbD_lowMask hiw]
      simp [hi]
    · exact BitVec.getLsbD_of_ge _ i (by omega)
  have hhigh : ((c ^^^ y) &&& ~~~ lowMask w n) >>> n = c >>> n := by
    refine shiftRight_ext fun i hi => ?_
    by_cases hiw : i < w
    · have hyi := getLsbD_of_shiftRight (hy.trans (BitVec.zero_ushiftRight (n := n)).symm) hi
      rw [BitVec.getLsbD_and, BitVec.getLsbD_not, getLsbD_lowMask hiw, BitVec.getLsbD_xor, hyi]
      simp [show ¬ i < n by omega, hiw]
    · rw [BitVec.getLsbD_of_ge _ i (by omega), BitVec.getLsbD_of_ge _ i (by omega)]
  have hsum : register poly (c ^^^ y) (List.replicate n false) =
      register poly ((c ^^^ y) &&& lowMask w n) (List.replicate n false) ^^^
        register poly ((c ^^^ y) &&& ~~~ lowMask w n) (List.replicate n false) := by
    rw [← register_xor rfl, ← hsplit, hzeros]
  rw [register_eq_zeros n hy, hsum, register_zeros_of_low n hlow, hhigh]
  rfl

end Miniob.Common.ShiftRegister
