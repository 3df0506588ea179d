/-
  The integers and strings of the MySQL protocol (`mysql_communicator.cpp`).

  1. `storeLenencInt` writes one byte below 251, and else a tag with 2, 3 or 8 bytes behind it.
  2. `readLenencInt` is the rule of the protocol.  It gives the value back where the width that was chosen
     holds it (`readLenencInt_storeLenencInt`).
  3. The bounds of the code are `2UL << 16` and `2UL << 24`, twice what two and three bytes hold: the values
     between lose their highest bit (`UpperHalf`).
-/
import Miniob.Common.Bytes
import Miniob.Common.Run
import Miniob.Expr.Cast

namespace Miniob.Net

open Miniob.Common
open Miniob.Expr.Cast (Text)

/-- The code reads or writes outside of its memory. -/
inductive Fault where
  | undefined
  deriving DecidableEq

/-! ## Writing -/

def storeInt1 (value : Int) : List UInt8 := bytesOfInt 1 value

def storeInt2 (value : Int) : List UInt8 := bytesOfInt 2 value

def storeInt3 (value : Int) : List UInt8 := bytesOfInt 3 value

def storeInt4 (value : Int) : List UInt8 := bytesOfInt 4 value

def storeLenencInt (value : UInt64) : List UInt8 :=
  if value < 251 then bytesOfNat 1 value.toNat
  else if value < (2 : UInt64) <<< 16 then 0xFC :: bytesOfNat 2 value.toNat
  else if value < (2 : UInt64) <<< 24 then 0xFD :: bytesOfNat 3 value.toNat
  else 0xFE :: bytesOfNat 8 value.toNat

/-- `memcpy` takes the length for a `size_t`. -/
def storeFixLengthString (s : List UInt8) (len : Int32) : Except Fault (List UInt8) :=
  if len = 0 then .ok []
  else if 0 ≤ len.toInt ∧ len.toInt ≤ s.length then .ok (s.take len.toInt.toNat)
  else .error .undefined

/-- The length is an `int`, and it is widened again for `store_lenenc_int`. -/
def storeLenencString (s : Text) : Except Fault (List UInt8) := do
  let len := Int32.ofNat s.val.length
  let body ← storeFixLengthString s.val len
  .ok (storeLenencInt len.toInt64.toUInt64 ++ body)

/-! ## Reading -/

/-- As many bytes as the width says. -/
def readWidth (width : Nat) (bytes : List UInt8) : Option (Nat × List UInt8) :=
  if width ≤ bytes.length then some (natOfBytes (bytes.take width), bytes.drop width) else none

/-- The rule of the protocol: `0xFB` is NULL and `0xFF` an error, so neither begins an integer. -/
def readLenencInt : List UInt8 → Option (Nat × List UInt8)
  | [] => none
  | b :: bytes =>
    if b < 0xFB then some (b.toNat, bytes)
    else if b = 0xFC then readWidth 2 bytes
    else if b = 0xFD then readWidth 3 bytes
    else if b = 0xFE then readWidth 8 bytes
    else none

def readLenencString (bytes : List UInt8) : Option (List UInt8 × List UInt8) := do
  let (len, rest) ← readLenencInt bytes
  if len ≤ rest.length then some (rest.take len, rest.drop len) else none

/-! ## What is read of what was written -/

/-- In the upper half of what the bounds let through to two or to three bytes. -/
def UpperHalf (n : Nat) : Prop := (2 ^ 16 ≤ n ∧ n < 2 ^ 17) ∨ (2 ^ 24 ≤ n ∧ n < 2 ^ 25)

instance (n : Nat) : Decidable (UpperHalf n) := inferInstanceAs (Decidable (_ ∨ _))

theorem readWidth_bytesOfNat (width n : Nat) (rest : List UInt8) :
    readWidth width (bytesOfNat width n ++ rest) = some (n % 256 ^ width, rest) := by
  have hlen := length_bytesOfNat width n
  unfold readWidth
  rw [if_pos (by rw [List.length_append]; omega), List.take_left' hlen, List.drop_left' hlen,
    natOfBytes_bytesOfNat]

/-- What is read is the value up to the bytes that were written. -/
theorem readLenencInt_storeLenencInt (value : UInt64) (rest : List UInt8) :
    readLenencInt (storeLenencInt value ++ rest)
      = some (if value.toNat < 251 then value.toNat
          else if value.toNat < 2 ^ 17 then value.toNat % 2 ^ 16
          else if value.toNat < 2 ^ 25 then value.toNat % 2 ^ 24
          else value.toNat, rest) := by
  have h251 : value < 251 ↔ value.toNat < 251 := UInt64.lt_iff_toNat_lt
  have h17 : value < (2 : UInt64) <<< 16 ↔ value.toNat < 2 ^ 17 := UInt64.lt_iff_toNat_lt
  have h25 : value < (2 : UInt64) <<< 24 ↔ value.toNat < 2 ^ 25 := UInt64.lt_iff_toNat_lt
  unfold storeLenencInt
  rw [if_congr h251 rfl rfl, if_congr h17 rfl rfl, if_congr h25 rfl rfl]
  by_cases hone : value.toNat < 251
  · rw [if_pos hone, if_pos hone]
    have hbyte : (UInt8.ofNat value.toNat).toNat = value.toNat := by
      rw [UInt8.toNat_ofNat']
      omega
    have hlt : UInt8.ofNat value.toNat < 0xFB := by
      rw [UInt8.lt_iff_toNat_lt, hbyte]
      exact hone
    show readLenencInt (UInt8.ofNat value.toNat :: rest) = _
    rw [readLenencInt, if_pos hlt, hbyte]
  · rw [if_neg hone, if_neg hone]
    by_cases htwo : value.toNat < 2 ^ 17
    · rw [if_pos htwo, if_pos htwo]
      exact readWidth_bytesOfNat 2 value.toNat rest
    · rw [if_neg htwo, if_neg htwo]
      by_cases hthree : value.toNat < 2 ^ 25
      · rw [if_pos hthree, if_pos hthree]
        exact readWidth_bytesOfNat 3 value.toNat rest
      · rw [if_neg hthree, if_neg hthree]
        refine (readWidth_bytesOfNat 8 value.toNat rest).trans ?_
        rw [Nat.mod_eq_of_lt (show value.toNat < 256 ^ 8 from value.toNat_lt)]

/-- The integer comes back unless it is in the upper half. -/
theorem readLenencInt_eq_iff (value : UInt64) (rest : List UInt8) :
    readLenencInt (storeLenencInt value ++ rest) = some (value.toNat, rest) ↔ ¬ UpperHalf value.toNat := by
  rw [readLenencInt_storeLenencInt, Option.some_inj, Prod.mk.injEq, and_iff_left rfl]
  unfold UpperHalf
  split
  · omega
  · split
    · omega
    · split <;> omega

/-! ## Strings -/

/-- What `store_lenenc_string` writes: as many bytes as the `int` says. -/
theorem storeLenencString_eq_ok {s : Text} {bytes : List UInt8} (h : storeLenencString s = .ok bytes) :
    ∃ len : UInt64, len.toNat ≤ s.val.length ∧ len.toNat < 2 ^ 31 ∧
      bytes = storeLenencInt len ++ s.val.take len.toNat := by
  unfold storeLenencString at h
  generalize Int32.ofNat s.val.length = len at h
  obtain ⟨body, hbody, h⟩ := ok_of_bind h
  obtain rfl := Except.ok.inj h
  have hlt : len.toInt < 2 ^ 31 := len.toInt_lt
  have hwide : 0 ≤ len.toInt → len.toInt64.toUInt64.toNat = len.toInt.toNat := by
    intro hnonneg
    have hle : (0 : Int64) ≤ len.toInt64 := by
      rw [Int64.le_iff_toInt_le, Int32.toInt_toInt64]
      exact hnonneg
    rw [Int64.toNat_toUInt64_of_le hle]
    exact congrArg Int.toNat len.toInt_toInt64
  refine ⟨len.toInt64.toUInt64, ?_⟩
  unfold storeFixLengthString at hbody
  by_cases hzero : len = 0
  · rw [if_pos hzero] at hbody
    obtain rfl := Except.ok.inj hbody
    subst hzero
    exact ⟨Nat.zero_le _, by decide, rfl⟩
  · rw [if_neg hzero] at hbody
    split at hbody
    · rename_i hlen
      obtain rfl := Except.ok.inj hbody
      rw [hwide hlen.1]
      exact ⟨by omega, by omega, rfl⟩
    · cases hbody

theorem storeLenencString_of_lt {s : Text} (h : s.val.length < 2 ^ 31) : ∃ len : UInt64,
    len.toNat = s.val.length ∧ storeLenencString s = .ok (storeLenencInt len ++ s.val) := by
  have hlen : (Int32.ofNat s.val.length).toInt = s.val.length := Int32.toInt_ofNat_of_lt h
  have hbody : storeFixLengthString s.val (Int32.ofNat s.val.length) = .ok s.val := by
    unfold storeFixLengthString
    by_cases hzero : Int32.ofNat s.val.length = 0
    · rw [hzero] at hlen
      rw [if_pos hzero, List.eq_nil_of_length_eq_zero (Int.natCast_eq_zero.mp hlen.symm)]
    · rw [if_neg hzero, hlen, if_pos ⟨Int.natCast_nonneg _, Int.le_refl _⟩, Int.toNat_natCast,
        List.take_length]
  have hstore : storeLenencString s
      = .ok (storeLenencInt (Int32.ofNat s.val.length).toInt64.toUInt64 ++ s.val) := by
    unfold storeLenencString
    dsimp only
    rw [hbody]
    rfl
  refine ⟨_, ?_, hstore⟩
  have hle : (0 : Int64) ≤ (Int32.ofNat s.val.length).toInt64 := by
    rw [Int64.le_iff_toInt_le, Int32.toInt_toInt64, hlen]
    exact Int.natCast_nonneg _
  rw [Int64.toNat_toUInt64_of_le hle]
  refine (congrArg Int.toNat (Int32.toInt_toInt64 _)).trans ?_
  rw [hlen, Int.toNat_natCast]

/-- What is read is at most what was written. -/
theorem le_of_readLenencInt {value : UInt64} {rest rest' : List UInt8} {n : Nat}
    (h : readLenencInt (storeLenencInt value ++ rest) = some (n, rest')) : n ≤ value.toNat ∧ rest' = rest := by
  rw [readLenencInt_storeLenencInt, Option.some_inj, Prod.mk.injEq] at h
  obtain ⟨rfl, rfl⟩ := h
  refine ⟨?_, rfl⟩
  split
  · omega
  · split
    · omega
    · split <;> omega

/-- Where the string comes back, its length is within the bounds, and no more is read. -/
theorem of_readLenencString {s : Text} {bytes rest rest' : List UInt8} (hstore : storeLenencString s = .ok bytes)
    (hread : readLenencString (bytes ++ rest) = some (s.val, rest')) :
    s.val.length < 2 ^ 31 ∧ ¬ UpperHalf s.val.length ∧ rest' = rest := by
  obtain ⟨len, hle, hlt, rfl⟩ := storeLenencString_eq_ok hstore
  unfold readLenencString at hread
  rw [List.append_assoc] at hread
  obtain ⟨⟨n, body⟩, hint, hread⟩ := Option.bind_eq_some_iff.mp hread
  obtain ⟨hn, rfl⟩ := le_of_readLenencInt hint
  dsimp only at hread
  split at hread
  · obtain ⟨htake, hdrop⟩ := Prod.mk.inj (Option.some.inj hread)
    have hlen := congrArg List.length htake
    rw [List.length_take] at hlen
    -- the length that is read is the one of the string, so none of the cuts took place
    have heq : n = len.toNat := by omega
    have hs : len.toNat = s.val.length := by omega
    rw [heq] at hint
    refine ⟨by omega, ?_, ?_⟩
    · rw [← hs]
      exact (readLenencInt_eq_iff len _).mp hint
    · rw [← hdrop, heq, hs, List.take_length, List.drop_left]
  · cases hread

/-- Within the bounds the string comes back. -/
theorem readLenencString_of_not_upperHalf {s : Text} {len : UInt64} (hlen : len.toNat = s.val.length)
    (hhalf : ¬ UpperHalf s.val.length) (rest : List UInt8) :
    readLenencString (storeLenencInt len ++ s.val ++ rest) = some (s.val, rest) := by
  rw [← hlen] at hhalf
  unfold readLenencString
  rw [List.append_assoc, (readLenencInt_eq_iff len _).mpr hhalf]
  dsimp only [Option.bind_eq_bind, Option.bind_some]
  rw [hlen, if_pos (by rw [List.length_append]; omega), List.take_left, List.drop_left]

/-- The string comes back if its length does. -/
theorem readLenencString_eq_iff (s : Text) (rest : List UInt8) :
    (∃ bytes, storeLenencString s = .ok bytes ∧ readLenencString (bytes ++ rest) = some (s.val, rest)) ↔
      s.val.length < 2 ^ 31 ∧ ¬ UpperHalf s.val.length := by
  constructor
  · rintro ⟨bytes, hstore, hread⟩
    obtain ⟨hlt, hhalf, -⟩ := of_readLenencString hstore hread
    exact ⟨hlt, hhalf⟩
  · rintro ⟨hlt, hhalf⟩
    obtain ⟨len, hlen, hstore⟩ := storeLenencString_of_lt hlt
    exact ⟨_, hstore, readLenencString_of_not_upperHalf hlen hhalf rest⟩

/-- **The integers and strings of the protocol.**  Reading gives back what was written exactly outside of
    the upper halves. -/
theorem lenenc_roundtrip_iff (value : UInt64) (s : Text) (rest : List UInt8) :
    (readLenencInt (storeLenencInt value ++ rest) = some (value.toNat, rest) ↔ ¬ UpperHalf value.toNat) ∧
    ((∃ bytes, storeLenencString s = .ok bytes ∧ readLenencString (bytes ++ rest) = some (s.val, rest)) ↔
      s.val.length < 2 ^ 31 ∧ ¬ UpperHalf s.val.length) :=
  ⟨readLenencInt_eq_iff value rest, readLenencString_eq_iff s rest⟩

/-- 65536 is written with two bytes, and both are 0. -/
theorem lenenc_truncates : ¬ ∀ (value : UInt64) (rest : List UInt8),
    readLenencInt (storeLenencInt value ++ rest) = some (value.toNat, rest) := by
  intro h
  have hzero : readLenencInt (storeLenencInt 65536 ++ []) = some (0, []) := by decide
  have heq := hzero.symm.trans (h 65536 [])
  exact absurd (Prod.mk.inj (Option.some.inj heq)).1 (by decide)

end Miniob.Net
