/-
  Little-endian bytes of natural and of signed numbers.

  Both directions are exact: the bytes of a number that fits give the number back, and the number
  of some bytes gives the bytes back.
-/
import Mathlib.Data.Int.ModEq
import Mathlib.Data.List.GetD
import Mathlib.Tactic.Ring

namespace Miniob.Common

/-! ## Natural numbers -/

/-- The lowest bytes, the least significant one first. -/
def bytesOfNat : Nat → Nat → List UInt8
  | 0, _ => []
  | width + 1, n => UInt8.ofNat n :: bytesOfNat width (n / 256)

/-- The number whose little-endian bytes these are. -/
def natOfBytes : List UInt8 → Nat
  | [] => 0
  | b :: bs => b.toNat + 256 * natOfBytes bs

@[simp] theorem length_bytesOfNat (width n : Nat) : (bytesOfNat width n).length = width := by
  induction width generalizing n with
  | zero => rfl
  | succ width ih => rw [bytesOfNat, List.length_cons, ih]

/-- A number that does not fit into the width is cut. -/
theorem natOfBytes_bytesOfNat (width n : Nat) :
    natOfBytes (bytesOfNat width n) = n % 256 ^ width := by
  induction width generalizing n with
  | zero => rw [pow_zero, Nat.mod_one]; rfl
  | succ width ih =>
    have hbyte : (UInt8.ofNat n).toNat = n % 256 := UInt8.toNat_ofNat'
    rw [bytesOfNat, natOfBytes, ih, hbyte, pow_succ', Nat.mod_mul]

/-- So many bytes hold no more. -/
theorem natOfBytes_lt (bs : List UInt8) : natOfBytes bs < 256 ^ bs.length := by
  induction bs with
  | nil => exact Nat.one_pos
  | cons b bs ih =>
    have hb := b.toNat_lt
    rw [natOfBytes, List.length_cons, pow_succ]
    omega

/-- No two lists of one length are the same number. -/
theorem bytesOfNat_natOfBytes (bs : List UInt8) : bytesOfNat bs.length (natOfBytes bs) = bs := by
  induction bs with
  | nil => rfl
  | cons b bs ih =>
    have hb := b.toNat_lt
    rw [List.length_cons, bytesOfNat, natOfBytes]
    have hdiv : (b.toNat + 256 * natOfBytes bs) / 256 = natOfBytes bs := by omega
    have hmod : UInt8.ofNat (b.toNat + 256 * natOfBytes bs) = b := by
      apply UInt8.toNat_inj.mp
      rw [UInt8.toNat_ofNat']
      omega
    rw [hdiv, hmod, ih]

/-! ## Signed numbers -/

/-- Two's complement. -/
def bytesOfInt (width : Nat) (x : Int) : List UInt8 :=
  bytesOfNat width (x % (256 ^ width : Nat)).toNat

/-- The number in two's complement. -/
def intOfBytes (bs : List UInt8) : Int := Int.bmod (natOfBytes bs) (256 ^ bs.length)

@[simp] theorem length_bytesOfInt (width : Nat) (x : Int) : (bytesOfInt width x).length = width :=
  length_bytesOfNat _ _

/-- A number that does not fit into the width wraps around. -/
theorem intOfBytes_bytesOfInt (width : Nat) (x : Int) :
    intOfBytes (bytesOfInt width x) = Int.bmod x (256 ^ width) := by
  have hpos : (0 : Int) < (256 ^ width : Nat) :=
    Int.natCast_pos.mpr (Nat.pow_pos (by omega))
  have hnonneg := Int.emod_nonneg x (Int.ne_of_gt hpos)
  have hlt := Int.emod_lt_of_pos x hpos
  have hnat : (x % (256 ^ width : Nat)).toNat < 256 ^ width := by omega
  unfold intOfBytes
  rw [length_bytesOfInt]
  unfold bytesOfInt
  rw [natOfBytes_bytesOfNat, Nat.mod_eq_of_lt hnat, Int.toNat_of_nonneg hnonneg, Int.emod_bmod]

/-- Bytes that are read and written again are the same. -/
theorem bytesOfInt_intOfBytes (bs : List UInt8) : bytesOfInt bs.length (intOfBytes bs) = bs := by
  have hlt := natOfBytes_lt bs
  unfold bytesOfInt intOfBytes
  rw [Int.bmod_emod, Int.emod_eq_of_lt (Int.natCast_nonneg _) (by exact_mod_cast hlt), Int.toNat_natCast]
  exact bytesOfNat_natOfBytes bs

/-! ## 32-bit numbers -/

/-- An `int` as `memcpy` leaves it in a record. -/
def int32Bytes (x : Int32) : List UInt8 := bytesOfInt 4 x.toInt

/-- An `int` that `memcpy` takes out of a record. -/
def int32OfBytes (bs : List UInt8) : Int32 := .ofInt (intOfBytes bs)

@[simp] theorem length_int32Bytes (x : Int32) : (int32Bytes x).length = 4 := length_bytesOfInt _ _

/-- What is written is read. -/
@[simp] theorem int32OfBytes_int32Bytes (x : Int32) : int32OfBytes (int32Bytes x) = x := by
  unfold int32OfBytes int32Bytes
  rw [intOfBytes_bytesOfInt]
  exact (congrArg Int32.ofInt x.toInt_bmod).trans x.ofInt_toInt

/-- Any four bytes are an `int`. -/
theorem int32Bytes_int32OfBytes {bs : List UInt8} (h : bs.length = 4) :
    int32Bytes (int32OfBytes bs) = bs := by
  have hbytes := bytesOfInt_intOfBytes bs
  have hint : (Int32.ofInt (intOfBytes bs)).toInt = intOfBytes bs := by
    rw [Int32.toInt_ofInt]
    unfold intOfBytes
    rw [h]
    exact Int.bmod_bmod
  rw [h] at hbytes
  unfold int32Bytes int32OfBytes
  rw [hint, hbytes]

/-- Two `int`s that are written alike are the same. -/
theorem int32Bytes_inj {x y : Int32} (h : int32Bytes x = int32Bytes y) : x = y := by
  rw [← int32OfBytes_int32Bytes x, h, int32OfBytes_int32Bytes]

/-- An array of numbers. -/
def int32sBytes (xs : List Int32) : List UInt8 := xs.flatMap int32Bytes

/-- The first `n` numbers of an array. -/
def int32sOfBytes : Nat → List UInt8 → List Int32
  | 0, _ => []
  | n + 1, bs => int32OfBytes (bs.take 4) :: int32sOfBytes n (bs.drop 4)

theorem int32sBytes_cons (x : Int32) (xs : List Int32) :
    int32sBytes (x :: xs) = int32Bytes x ++ int32sBytes xs := List.flatMap_cons

/-- Each number has four bytes. -/
@[simp] theorem length_int32sBytes (xs : List Int32) : (int32sBytes xs).length = 4 * xs.length := by
  induction xs with
  | nil => rfl
  | cons x xs ih =>
    rw [int32sBytes_cons, List.length_append, length_int32Bytes, ih, List.length_cons]
    omega

@[simp] theorem length_int32sOfBytes (n : Nat) (bs : List UInt8) : (int32sOfBytes n bs).length = n := by
  induction n generalizing bs with
  | zero => rfl
  | succ n ih => rw [int32sOfBytes, List.length_cons, ih]

/-- An array is read as it was written, whatever is behind it. -/
theorem int32sOfBytes_int32sBytes (xs : List Int32) (t : List UInt8) :
    int32sOfBytes xs.length (int32sBytes xs ++ t) = xs := by
  induction xs with
  | nil => rfl
  | cons x xs ih =>
    have hlen := length_int32Bytes x
    rw [List.length_cons, int32sOfBytes, int32sBytes_cons, List.append_assoc,
      List.take_left' hlen, List.drop_left' hlen, int32OfBytes_int32Bytes, ih]

/-- An array that is read and written again gives the bytes it was read from. -/
theorem int32sBytes_int32sOfBytes {n : Nat} {bs : List UInt8} (h : 4 * n ≤ bs.length) :
    int32sBytes (int32sOfBytes n bs) = bs.take (4 * n) := by
  induction n generalizing bs with
  | zero => rfl
  | succ n ih =>
    have htake : (bs.take 4).length = 4 := by
      rw [List.length_take]
      omega
    have hdrop : 4 * n ≤ (bs.drop 4).length := by
      rw [List.length_drop]
      omega
    rw [int32sOfBytes, int32sBytes_cons, int32Bytes_int32OfBytes htake, ih hdrop,
      show 4 * (n + 1) = 4 + 4 * n by omega, List.take_add]

/-! ## Arrays of a fixed size -/

/-- What is behind the first `k` elements, read one by one. -/
theorem ofFn_getD {α : Type} {xs : List α} {k n : Nat} (h : xs.length = k + n) (d : α) :
    List.ofFn (fun i : Fin n => xs.getD (k + i) d) = xs.drop k := by
  apply List.ext_getElem
  · rw [List.length_ofFn, List.length_drop, h]
    omega
  · intro i hi hi'
    rw [List.length_drop] at hi'
    rw [List.getElem_ofFn, List.getElem_drop]
    exact List.getD_eq_getElem xs d (by omega)

/-- Element `i` of what is written behind the first `k` elements. -/
theorem getD_append_ofFn {α : Type} {xs : List α} {k n : Nat} (h : xs.length = k) (f : Fin n → α)
    (d : α) (i : Fin n) : (xs ++ List.ofFn f).getD (k + i) d = f i := by
  have hi : k + (i : Nat) - xs.length = i := by omega
  rw [List.getD_append_right _ _ _ _ (by omega), hi,
    List.getD_eq_getElem _ _ (by rw [List.length_ofFn]; exact i.isLt), List.getElem_ofFn]

end Miniob.Common
