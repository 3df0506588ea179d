/-
  Basic storage types: page and slot numbers, record identifiers and return codes
  (src/observer/common/types.h, storage/record/record.h, common/rc.h).

  `RID::compare` subtracts `int32_t` fields and lets the caller look at the sign, so it is an
  order only where the subtraction does not overflow.  `RecordId` is the part of `RID` on which
  it is: both numbers non-negative, which holds for every record identifier a record file hands
  out.  On `RecordId` the comparator is the lexicographic order (`ridCmp`), and the two
  sentinels `RID::min()` and `RID::max()` are its least and greatest elements.
-/
import Mathlib.Algebra.Group.Int.Defs
import Mathlib.Algebra.GroupWithZero.Nat
import Mathlib.Data.List.Basic
import Mathlib.Order.Compare

namespace Miniob.Storage

/-- `using PageNum = int32_t`. -/
abbrev PageNum := Int

/-- `static constexpr PageNum BP_INVALID_PAGE_NUM = -1`. -/
def bpInvalidPageNum : PageNum := -1

/-- `BP_PAGE_DATA_SIZE`: the page less a page number, an LSN and a checksum. -/
def bpPageDataSize : Nat := 1024 * 8 * 8 * 8 - 4 - 8 - 4

/-- The return codes (`RC`) of the modelled functions. -/
inductive RC where
  | success
  | invalidArgument
  | empty
  | recordDuplicateKey
  | recordNotExist
  | recordInvalidKey
  | recordInvisible
  | recordNomem
  | recordEof
  | lockedNeedWait
  | lockedConcurrencyConflict
  | lockedUnlock
  | recordInvalidRid
  | schemaTableNotExist
  | internal
  | bufferpoolNobuf
  | bufferpoolInvalidPageNum
  | ioerrRead
  | ioerrSeek
  | ioerrWrite
  | logFileFull
  | fileNotOpened
  | nomem
  | variableNotValid
  | unimplemented
  | unsupported
  | schemaFieldMissing
  | schemaFieldNotExist
  | notfound
  /-- The codes that no modelled function tells apart. -/
  | other (code : Int)
  deriving DecidableEq, Repr

/-! ## Record identifiers -/

/-- The value a 32-bit signed subtraction leaves. -/
def int32 (x : Int) : Int := Int.bmod x (2 ^ 32)

theorem int32_of_range {x : Int} (h1 : -(2 ^ 31) ≤ x) (h2 : x < 2 ^ 31) : int32 x = x := by
  unfold int32
  rw [Int.bmod_def]
  split <;> omega

/-- `struct RID`. -/
structure RID where
  pageNum : Int
  slotNum : Int
  deriving DecidableEq, Repr

/-- `RID::compare`: page number first, then slot number, by subtraction. -/
def RID.compare (rid1 rid2 : RID) : Int :=
  let pageDiff := int32 (rid1.pageNum - rid2.pageNum)
  if pageDiff ≠ 0 then pageDiff else int32 (rid1.slotNum - rid2.slotNum)

/-- The sign of a three-way `int` result. -/
def sign (result : Int) : Ordering := Ord.compare result 0

/-- A record identifier both of whose numbers are non-negative `int32_t` values. -/
structure RecordId extends RID where
  pageRange : 0 ≤ pageNum ∧ pageNum < 2 ^ 31
  slotRange : 0 ≤ slotNum ∧ slotNum < 2 ^ 31

namespace RecordId

theorem ext_iff' {r s : RecordId} :
    r = s ↔ r.pageNum = s.pageNum ∧ r.slotNum = s.slotNum := by
  obtain ⟨⟨p, q⟩, -, -⟩ := r
  obtain ⟨⟨p', q'⟩, -, -⟩ := s
  simp

instance : DecidableEq RecordId := fun _ _ => decidable_of_iff _ ext_iff'.symm

/-- `RID::min()`. -/
def min : RecordId := ⟨⟨0, 0⟩, by decide, by decide⟩

/-- `RID::max()`: "我们假设page num和slot num都不会使用对应数值类型的最大值". -/
def max : RecordId := ⟨⟨2 ^ 31 - 1, 2 ^ 31 - 1⟩, by decide, by decide⟩

/-- A record identifier strictly between the two sentinels: what records really have. -/
def Proper (r : RecordId) : Prop := r ≠ min ∧ r ≠ max

instance (r : RecordId) : Decidable r.Proper := inferInstanceAs (Decidable (_ ∧ _))

end RecordId

/-- The comparator a B+ tree key uses on its record identifier. -/
def ridCmp (r s : RecordId) : Ordering := sign (RID.compare r.toRID s.toRID)

/-- On record identifiers the subtraction never wraps: the comparator is the lexicographic
    order of the two numbers. -/
theorem ridCmp_eq (r s : RecordId) :
    ridCmp r s = compareLex (compareOn (fun x : RecordId => x.pageNum))
      (compareOn (fun x : RecordId => x.slotNum)) r s := by
  obtain ⟨⟨p, q⟩, hp, hq⟩ := r
  obtain ⟨⟨p', q'⟩, hp', hq'⟩ := s
  dsimp only at hp hq hp' hq'
  have h1 : int32 (p - p') = p - p' := int32_of_range (by omega) (by omega)
  have h2 : int32 (q - q') = q - q' := int32_of_range (by omega) (by omega)
  have hsub : ∀ a b : Int, Ord.compare (a - b) 0 = Ord.compare a b := by
    intro a b
    rcases Int.lt_trichotomy a b with h | h | h
    · rw [Int.compare_eq_lt.mpr h, Int.compare_eq_lt.mpr (by omega)]
    · subst h
      rw [Int.sub_self, Int.compare_eq_eq.mpr rfl, Int.compare_eq_eq.mpr rfl]
    · rw [Int.compare_eq_gt.mpr h, Int.compare_eq_gt.mpr (by omega)]
  simp only [ridCmp, sign, RID.compare, h1, h2, compareLex, compareOn]
  by_cases hd : p - p' = 0
  · have hpp : p = p' := by omega
    subst hpp
    simp [hsub]
  · have hne : Ord.compare p p' ≠ .eq := fun h => hd (by have := Int.compare_eq_eq.mp h; omega)
    rw [if_pos hd, hsub]
    cases hc : Ord.compare p p' <;> first | rfl | exact absurd hc hne

instance : Std.TransCmp ridCmp := by
  have h : ridCmp = compareLex (compareOn (fun x : RecordId => x.pageNum))
      (compareOn (fun x : RecordId => x.slotNum)) := funext fun r => funext fun s => ridCmp_eq r s
  rw [h]
  infer_instance

instance : Std.LawfulEqCmp ridCmp where
  eq_of_compare {r s} h := by
    rw [ridCmp_eq, compareLex, Ordering.then_eq_eq] at h
    exact RecordId.ext_iff'.mpr ⟨Int.compare_eq_eq.mp h.1, Int.compare_eq_eq.mp h.2⟩

theorem ridCmp_eq_lt {r s : RecordId} :
    ridCmp r s = .lt ↔ r.pageNum < s.pageNum ∨
      (r.pageNum = s.pageNum ∧ r.slotNum < s.slotNum) := by
  rw [ridCmp_eq, compareLex, Ordering.then_eq_lt, compareOn, compareOn, Int.compare_eq_lt,
    Int.compare_eq_eq, Int.compare_eq_lt]

/-- Nothing is below `RID::min()`. -/
theorem ridCmp_min (r : RecordId) : ridCmp r .min ≠ .lt := by
  intro h
  have hp := r.pageRange
  have hs := r.slotRange
  rcases ridCmp_eq_lt.mp h with h | ⟨-, h⟩ <;> simp only [RecordId.min] at h <;> omega

/-- Nothing is above `RID::max()`. -/
theorem ridCmp_max (r : RecordId) : ridCmp .max r ≠ .lt := by
  intro h
  have hp := r.pageRange
  have hs := r.slotRange
  rcases ridCmp_eq_lt.mp h with h | ⟨-, h⟩ <;> simp only [RecordId.max] at h <;> omega

end Miniob.Storage
