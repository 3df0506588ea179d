/-
  Numbers and dates as text (`std::to_string`, `sscanf`, and `DateType` in
  src/observer/common/type/date_type.cpp).

  A text is a list of bytes.
-/
import Mathlib.Data.Nat.Digits.Defs
import Mathlib.Data.Rat.Floor

namespace Miniob.Expr

/-! ## Numbers -/

/-- The decimal digits. -/
def natText (n : Nat) : List UInt8 :=
  if n = 0 then [48] else (Nat.digits 10 n).reverse.map fun d => UInt8.ofNat (48 + d)

/-- `std::to_string` of an integer. -/
def intText (z : Int) : List UInt8 := if z < 0 then 45 :: natText z.natAbs else natText z.natAbs

/-- `std::setw` and `std::setfill('0')`. -/
def padText (width : Nat) (s : List UInt8) : List UInt8 := List.replicate (width - s.length) 48 ++ s

/-- To the nearest integer, and to the even one of two. -/
def roundEven (q : ℚ) : Int :=
  let n := ⌊q⌋
  if q - n > 1 / 2 ∨ (q - n = 1 / 2 ∧ n % 2 = 1) then n + 1 else n

/-- `std::to_string` of a number that is finite: six digits behind the point. -/
def fixedText (negative : Bool) (q : ℚ) : List UInt8 :=
  let n := (roundEven (|q| * 10 ^ 6)).toNat
  (if negative then [45] else []) ++ natText (n / 10 ^ 6) ++ 46 :: padText 6 (natText (n % 10 ^ 6))

theorem natText_ne_nil (n : Nat) : natText n ≠ [] := by
  unfold natText
  split
  · exact List.cons_ne_nil _ _
  · rename_i h
    simpa [Nat.digits_ne_nil_iff_ne_zero] using h

theorem natText_ne_zero (n : Nat) : ∀ b ∈ natText n, b ≠ 0 := by
  unfold natText
  intro b hb
  split at hb
  · rw [List.mem_singleton] at hb
    rw [hb]
    decide
  · obtain ⟨d, hd, rfl⟩ := List.mem_map.mp hb
    have hlt := Nat.digits_lt_base (by decide : 1 < 10) (List.mem_reverse.mp hd)
    intro h
    have := congrArg UInt8.toNat h
    rw [UInt8.toNat_ofNat'] at this
    simp at this
    omega

theorem intText_ne_nil (z : Int) : intText z ≠ [] := by
  unfold intText
  split
  · exact List.cons_ne_nil _ _
  · exact natText_ne_nil _

theorem intText_ne_zero (z : Int) : ∀ b ∈ intText z, b ≠ 0 := by
  unfold intText
  split
  · exact List.forall_mem_cons.mpr ⟨by decide, natText_ne_zero _⟩
  · exact natText_ne_zero _

theorem padText_ne_zero {width : Nat} {s : List UInt8} (h : ∀ b ∈ s, b ≠ 0) :
    ∀ b ∈ padText width s, b ≠ 0 := by
  unfold padText
  refine List.forall_mem_append.mpr ⟨fun b hb => ?_, h⟩
  rw [List.eq_of_mem_replicate hb]
  decide

theorem fixedText_ne_nil (negative : Bool) (q : ℚ) : fixedText negative q ≠ [] := by
  unfold fixedText
  simp

theorem fixedText_ne_zero (negative : Bool) (q : ℚ) : ∀ b ∈ fixedText negative q, b ≠ 0 := by
  unfold fixedText
  refine List.forall_mem_append.mpr ⟨List.forall_mem_append.mpr ⟨?_, natText_ne_zero _⟩, ?_⟩
  · cases negative
    · exact List.forall_mem_nil _
    · exact List.forall_mem_singleton.mpr (by decide)
  · exact List.forall_mem_cons.mpr ⟨by decide, padText_ne_zero (natText_ne_zero _)⟩

/-! ## Dates -/

/-- `DateType::check_data`. -/
def checkData (y m d : Int) : Bool :=
  let mon : List Int := [0, 31, 28, 31, 30, 31, 30, 31, 31, 30, 31, 30, 31]
  let leap := y.tmod 400 = 0 ∨ (y.tmod 100 ≠ 0 ∧ y.tmod 4 = 0)
  y > 0 ∧ m > 0 ∧ m ≤ 12 ∧ d > 0 ∧ d ≤ (if m = 2 ∧ leap then 1 else 0) + mon.getD m.toNat 0

/-- `DateType::check_data` of a stored date. -/
def checkDate (date : Int32) : Bool :=
  checkData (date.toInt.tdiv 10000) ((date.toInt.tdiv 100).tmod 100) (date.toInt.tmod 100)

/-- `Value::set_date`. -/
def dateNumber (y m d : Int) : Int := y * 10000 + m * 100 + d

/-- `DateType::to_string`. -/
def dateText (date : Int32) : List UInt8 :=
  padText 4 (intText (date.toInt.tdiv 10000)) ++ 45 :: padText 2 (intText ((date.toInt.tmod 10000).tdiv 100)) ++
    45 :: padText 2 (intText (date.toInt.tmod 100))

/-- The digits in front, as a number, and the rest. -/
def scanDigits : Nat → List UInt8 → Nat × List UInt8
  | n, [] => (n, [])
  | n, b :: s => if 48 ≤ b ∧ b ≤ 57 then scanDigits (10 * n + (b.toNat - 48)) s else (n, b :: s)

/-- `%d` behind white space and a sign: there has to be a digit. -/
def scanNat (s : List UInt8) : Option (Nat × List UInt8) :=
  match s with
  | [] => none
  | b :: _ => if 48 ≤ b ∧ b ≤ 57 then some (scanDigits 0 s) else none

/-- `%d`.  C does not define what is read if the number does not fit. -/
def scanInt (s : List UInt8) : Option (Int × List UInt8) :=
  match s.dropWhile fun b => decide (b = 32 ∨ (9 ≤ b ∧ b ≤ 13)) with
  | 45 :: s => (scanNat s).map fun r => (-(r.1 : Int), r.2)
  | 43 :: s => (scanNat s).map fun r => ((r.1 : Int), r.2)
  | s => (scanNat s).map fun r => ((r.1 : Int), r.2)

/-- A character of the format. -/
def scanByte (c : UInt8) : List UInt8 → Option (List UInt8)
  | [] => none
  | b :: s => if b = c then some s else none

/-- What `sscanf` reads with `"%d-%d-%d"`: year, month and day, and what it leaves. -/
def scanDate (s : List UInt8) : Option ((Int × Int × Int) × List UInt8) := do
  let y ← scanInt s
  let s ← scanByte 45 y.2
  let m ← scanInt s
  let s ← scanByte 45 m.2
  let d ← scanInt s
  return ((y.1, m.1, d.1), d.2)

/-- The number of a date is positive. -/
theorem dateNumber_pos {y m d : Int} (h : checkData y m d = true) : 0 < dateNumber y m d := by
  unfold checkData at h
  rw [decide_eq_true_eq] at h
  unfold dateNumber
  omega

end Miniob.Expr
