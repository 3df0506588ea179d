/-
  The comparator of the indexes, type by type (`AttrComparator` and `KeyComparator` in
  src/observer/storage/index/bplus_tree.h, the `compare` of the types in src/observer/common/type and
  src/deps/common/lang/comparator.cpp).

  * A field of a key is what its type reads from the bytes: 32-bit numbers, floats as exact rationals,
    and for CHARS the bytes themselves, which `set_string` cuts off at the first NUL.
  * NULL is a value like the others: the smallest 32-bit number, `-FLT_MAX`, and the empty string.
    VECTORS have none.
  * BOOLEANS has no comparison of its own: `DataType::compare` answers `INT32_MAX`.

  Left out: UNDEFINED and NULLS, which are not types of fields, and the lengths of the fields whose
  type has a length of its own.
-/
import Miniob.Common.ThreeWay
import Miniob.Index.KeyComparator
import Mathlib.Data.List.TakeWhile
import Mathlib.Data.Rat.Cast.Order

namespace Miniob.Index

open Miniob.Common Miniob.Storage

/-! ## Values -/

/-- The types of `enum class AttrType` that `compare` has a case for; `UNDEFINED` and `NULLS` are no type of a column. -/
inductive AttrType where
  | dates
  | chars
  | ints
  | floats
  | vectors
  | booleans
  deriving DecidableEq

/-- What a field of the type holds. -/
def AttrType.Data : AttrType → Type
  | dates => Int32
  | chars => List UInt8
  | ints => Int32
  | floats => ℚ
  | vectors => List ℚ
  | booleans => Bool

structure FieldMeta where
  type : AttrType
  len : Nat

def intNull : Int32 := Int32.minValue

def dateNull : Int32 := Int32.minValue

/-- `-FLT_MAX`. -/
def floatNull : ℚ := -((2 ^ 24 - 1) * 2 ^ 104)

/-- `EPSILON`. -/
def epsilon : ℚ := 1 / 10 ^ 6

/-! ## Comparisons -/

def compareInt (v1 v2 : Int32) : Int := if v1 > v2 then 1 else if v1 < v2 then -1 else 0

def compareFloat (v1 v2 : ℚ) : Int := toleranceCmp epsilon v1 v2

/-- `strncmp`; behind a string there is a NUL. -/
def strncmp : Nat → List UInt8 → List UInt8 → Int
  | 0, _, _ => 0
  | n + 1, s1, s2 =>
    if s1.headD 0 ≠ s2.headD 0 then (s1.headD 0).toNat - (s2.headD 0).toNat
    else if s1.headD 0 = 0 then 0
    else strncmp n s1.tail s2.tail

/-- `common::compare_string`: the common length first, then the longer one. -/
def compareString (s1 s2 : List UInt8) : Int :=
  let maxlen := min s1.length s2.length
  let result := strncmp maxlen s1 s2
  if result ≠ 0 then (if result < 0 then -1 else 1)
  else if s1.length > maxlen then 1
  else if s2.length > maxlen then -1
  else 0

/-- `Value::set_string`: `strnlen` bytes. -/
def setString (s : List UInt8) (len : Nat) : List UInt8 := (s.take len).takeWhile (· ≠ 0)

def IntegerType.compare : Int32 → Int32 → Int := absentFirst (· = intNull) compareInt

def DateType.compare : Int32 → Int32 → Int := absentFirst (· = dateNull) compareInt

def FloatType.compare : ℚ → ℚ → Int := absentFirst (· = floatNull) compareFloat

def CharType.compare : List UInt8 → List UInt8 → Int := absentFirst List.isEmpty compareString

def VectorType.compare : List ℚ → List ℚ → Int
  | l :: left, r :: right =>
    let result := compareFloat l r
    if result ≠ 0 then result else VectorType.compare left right
  | left, right =>
    if left.length = right.length then 0 else if left.length > right.length then 1 else -1

/-- `AttrComparator::operator()`. -/
def attrComparator : (f : FieldMeta) → f.type.Data → f.type.Data → Int
  | ⟨.dates, _⟩, v1, v2 => DateType.compare v1 v2
  | ⟨.chars, len⟩, v1, v2 => CharType.compare (setString v1 len) (setString v2 len)
  | ⟨.ints, _⟩, v1, v2 => IntegerType.compare v1 v2
  | ⟨.floats, _⟩, v1, v2 => FloatType.compare v1 v2
  | ⟨.vectors, _⟩, v1, v2 => VectorType.compare v1 v2
  | ⟨.booleans, _⟩, _, _ => 2 ^ 31 - 1

/-- The fields of a key. -/
def UserKey : List FieldMeta → Type
  | [] => Unit
  | f :: fs => f.type.Data × UserKey fs

/-- The loop over `attrs_comparator_`. -/
def attrsCompare : (fs : List FieldMeta) → UserKey fs → UserKey fs → Int
  | [], _, _ => 0
  | f :: fs, v1, v2 =>
    let result := attrComparator f v1.1 v2.1
    if result ≠ 0 then result else attrsCompare fs v1.2 v2.2

structure KeyComparator where
  unique : Bool
  fields : List FieldMeta

/-- `KeyComparator::operator()`. -/
def KeyComparator.compare (c : KeyComparator) (v1 v2 : UserKey c.fields × RecordId) : Int :=
  let result := attrsCompare c.fields v1.1 v2.1
  if result ≠ 0 then result
  else if c.unique then 0
  else RID.compare v1.2.toRID v2.2.toRID

/-! ## Numbers -/

theorem compareInt_eq (v1 v2 : Int32) : compareInt v1 v2 = linearCmp v1.toInt v2.toInt := by
  unfold compareInt linearCmp
  simp only [gt_iff_lt, Int32.lt_iff_toInt_lt]

theorem lawful_compareInt (S : Set Int32) : Lawful compareInt S :=
  Lawful.congr (fun a _ b _ => compareInt_eq a b) (lawful_image_iff.mp (lawful_linearCmp (_ '' S)))

theorem exact_compareInt (S : Set Int32) : Exact compareInt S := by
  intro a _ b _ h
  rw [compareInt_eq] at h
  exact Int32.toInt_inj.mp (exact_linearCmp Set.univ _ trivial _ trivial h)

theorem epsilon_nonneg : 0 ≤ epsilon := by
  unfold epsilon
  norm_num

/-! ## Strings -/

/-- `strncmp` on bytes that are no NULs, and what `compare_string` makes of it. -/
theorem compareString_eq {s1 s2 : List UInt8} (h1 : ∀ b ∈ s1, b ≠ 0) :
    compareString s1 s2 = listCmp (fun a b => linearCmp a.toNat b.toNat) s1 s2 := by
  induction s1 generalizing s2 with
  | nil =>
    cases s2 with
    | nil => rfl
    | cons b s2 =>
      unfold compareString
      simp [strncmp, listCmp]
  | cons a s1 ih =>
    cases s2 with
    | nil =>
      unfold compareString
      simp [strncmp, listCmp]
    | cons b s2 =>
      have ha : a ≠ 0 := h1 a (by simp)
      have hrest := @ih s2 fun b hb => h1 b (List.mem_cons_of_mem a hb)
      by_cases hab : a = b
      · subst hab
        have hself : linearCmp a.toNat a.toNat = 0 := (lawful_linearCmp Set.univ).refl _ trivial
        have hstep : compareString (a :: s1) (a :: s2) = compareString s1 s2 := by
          unfold compareString
          simp [strncmp, ha, Nat.succ_min_succ]
        rw [hstep, hrest, listCmp_cons, lexCmp_of_eq hself]
      · have hne : a.toNat ≠ b.toNat := fun h => hab (UInt8.toNat_inj.mp h)
        rw [listCmp_cons, lexCmp_of_ne]
        · unfold compareString linearCmp
          simp only [List.length_cons, Nat.succ_min_succ, strncmp, List.headD_cons, ne_eq, hab,
            not_false_eq_true, if_true]
          split
          · split
            · rw [if_neg (by omega), if_pos (by omega)]
            · rw [if_pos (by omega)]
          · omega
        · intro hz
          exact hne (exact_linearCmp Set.univ _ trivial _ trivial hz)

theorem lawful_compareByte : Lawful (fun a b : UInt8 => linearCmp a.toNat b.toNat) Set.univ :=
  lawful_image_iff.mp (lawful_linearCmp _)

theorem exact_compareByte : Exact (fun a b : UInt8 => linearCmp a.toNat b.toNat) Set.univ :=
  fun _ _ _ _ h => UInt8.toNat_inj.mp (exact_linearCmp Set.univ _ trivial _ trivial h)

/-- No byte of a string is NUL. -/
theorem setString_ne_zero (s : List UInt8) (len : Nat) : ∀ b ∈ setString s len, b ≠ 0 := by
  intro b hb
  have := List.mem_takeWhile_imp hb
  simpa using this

/-! ## Vectors -/

/-- Vectors compare as lists do, number by number. -/
theorem vectorCompare_eq (left right : List ℚ) :
    VectorType.compare left right = listCmp compareFloat left right := by
  induction left generalizing right with
  | nil =>
    cases right with
    | nil => rfl
    | cons r right => simp [VectorType.compare, listCmp]
  | cons l left ih =>
    cases right with
    | nil => simp [VectorType.compare, listCmp]
    | cons r right =>
      unfold VectorType.compare listCmp
      rw [ih]

/-! ## Record identifiers -/

/-- On record identifiers that are handed out the subtraction does not overflow. -/
theorem lawful_ridCompare (S : Set RecordId) :
    Lawful (fun r s : RecordId => RID.compare r.toRID s.toRID) S := by
  have hneg : ∀ r s : RecordId, RID.compare r.toRID s.toRID < 0 ↔ ridCmp r s = .lt := fun r s => by
    rw [ridCmp, sign, Int.compare_eq_lt]
  have hpos : ∀ r s : RecordId, 0 < RID.compare r.toRID s.toRID ↔ ridCmp r s = .gt := fun r s => by
    rw [ridCmp, sign, Int.compare_eq_gt]
  refine ⟨fun r _ => ?_, fun r _ s _ => ?_, fun r _ s _ t _ hrs hst => ?_⟩
  · have := @Std.ReflCmp.compare_self RecordId ridCmp _ r
    rw [ridCmp, sign] at this
    exact Int.compare_eq_eq.mp this
  · rw [hneg, hpos]
    exact Std.OrientedCmp.gt_iff_lt.symm
  · rw [← not_lt, hpos] at hrs hst ⊢
    rw [← Ordering.isLE_iff_ne_gt] at hrs hst ⊢
    exact Std.TransCmp.isLE_trans hrs hst

theorem exact_ridCompare (S : Set RecordId) :
    Exact (fun r s : RecordId => RID.compare r.toRID s.toRID) S := by
  intro r _ s _ h
  refine @Std.LawfulEqCmp.eq_of_compare RecordId ridCmp _ r s ?_
  rw [ridCmp, sign]
  exact Int.compare_eq_eq.mpr h

/-! ## What rows hold -/

/-- `Table::set_value_to_record` on a string, after `Value::resize`. -/
def charField (len : Nat) (s : List UInt8) : List UInt8 :=
  s.take len ++ List.replicate (len - s.length) 0

/-- The bytes of a CHARS field that `Table::make_record` has stored: those of a string. -/
def IsCharField (len : Nat) (bytes : List UInt8) : Prop :=
  ∃ s : List UInt8, (∀ b ∈ s, b ≠ 0) ∧ bytes = charField len s

/-- The values that the rows have in a field; for a vector, in each of its positions. -/
inductive ValueSet : FieldMeta → Type where
  | dates {len : Nat} (values : Set Int32) : values.Nonempty → ValueSet ⟨.dates, len⟩
  | chars {len : Nat} (values : Set (List UInt8)) : values.Nonempty →
      (∀ bytes ∈ values, IsCharField len bytes) → ValueSet ⟨.chars, len⟩
  | ints {len : Nat} (values : Set Int32) : values.Nonempty → ValueSet ⟨.ints, len⟩
  | floats {len : Nat} (values : Set ℚ) : values.Nonempty → ValueSet ⟨.floats, len⟩
  | vectors {len : Nat} (units : List (Set ℚ)) : (∀ U ∈ units, U.Nonempty) →
      ValueSet ⟨.vectors, len⟩
  | booleans {len : Nat} (values : Set Bool) : values.Nonempty → ValueSet ⟨.booleans, len⟩

namespace ValueSet

def values : {f : FieldMeta} → ValueSet f → Set f.type.Data
  | _, dates values _ => values
  | _, chars values _ _ => values
  | _, ints values _ => values
  | _, floats values _ => values
  | _, vectors units _ => listsOf units
  | _, booleans values _ => values

/-- Being within `EPSILON` is transitive. -/
def CloseTrans (U : Set ℚ) : Prop :=
  ∀ a ∈ U, ∀ b ∈ U, ∀ c ∈ U, Close epsilon a b → Close epsilon b c → Close epsilon a c

/-- Different numbers are more than `EPSILON` apart. -/
def Apart (U : Set ℚ) : Prop := ∀ a ∈ U, ∀ b ∈ U, Close epsilon a b → a = b

/-- No NULL; no floats in between two that are more than `EPSILON` apart and close to both; not of a
    type without a comparison. -/
def Ordered : {f : FieldMeta} → ValueSet f → Prop
  | _, dates values _ => dateNull ∉ values
  | ⟨_, len⟩, chars values _ _ => ∀ bytes ∈ values, setString bytes len ≠ []
  | _, ints values _ => intNull ∉ values
  | _, floats values _ => floatNull ∉ values ∧ CloseTrans values
  | _, vectors units _ => ∀ U ∈ units, CloseTrans U
  | _, booleans _ _ => False

/-- No two floats that `EPSILON` does not tell apart. -/
def Separated : {f : FieldMeta} → ValueSet f → Prop
  | _, floats values _ => Apart values
  | _, vectors units _ => ∀ U ∈ units, Apart U
  | _, _ => True

theorem nonempty {f : FieldMeta} (V : ValueSet f) : V.values.Nonempty := by
  cases V with
  | dates values h | chars values h _ | ints values h | floats values h | booleans values h => exact h
  | vectors units h => exact listsOf_nonempty h

end ValueSet

/-! ## One field -/

/-- A field of `CHARS` gives the text that was stored, cut to its length. -/
theorem setString_charField (len : Nat) {s : List UInt8} (h : ∀ b ∈ s, b ≠ 0) :
    setString (charField len s) len = s.take len := by
  have hlen : (charField len s).length = len := by
    unfold charField
    rw [List.length_append, List.length_take, List.length_replicate]
    omega
  unfold setString
  rw [List.take_of_length_le (le_of_eq hlen)]
  unfold charField
  have htake : ∀ b ∈ s.take len, decide (b ≠ 0) = true := fun b hb =>
    decide_eq_true (h b (List.mem_of_mem_take hb))
  rw [List.takeWhile_append_of_pos htake]
  cases len - s.length with
  | zero => simp
  | succ n => simp [List.replicate_succ]

/-- The stored bytes are known from the string that is read from them. -/
theorem charField_inj {len : Nat} {b1 b2 : List UInt8} (h1 : IsCharField len b1)
    (h2 : IsCharField len b2) (h : setString b1 len = setString b2 len) : b1 = b2 := by
  obtain ⟨s1, hs1, rfl⟩ := h1
  obtain ⟨s2, hs2, rfl⟩ := h2
  rw [setString_charField len hs1, setString_charField len hs2] at h
  have hlen := congrArg List.length h
  rw [List.length_take, List.length_take] at hlen
  unfold charField
  rw [h, show len - s1.length = len - s2.length by omega]

/-- Two empty texts are where the comparison is no order: the empty text is NULL. -/
theorem lawful_charCompare_iff {len : Nat} {V : Set (List UInt8)} :
    Lawful (fun v1 v2 => CharType.compare (setString v1 len) (setString v2 len)) V ↔
      ∀ bytes ∈ V, setString bytes len ≠ [] := by
  have hcmp : Lawful (fun v1 v2 => compareString (setString v1 len) (setString v2 len)) V :=
    Lawful.congr (fun a _ b _ => compareString_eq (setString_ne_zero a len))
      (lawful_image_iff.mp (lawful_listCmp lawful_compareByte ((setString · len) '' V)))
  refine (@lawful_absentFirst_iff _ (fun v => (setString v len).isEmpty) _ V).trans ?_
  simp only [List.isEmpty_eq_false_iff, ne_eq]
  exact and_iff_left hcmp

/-- Fields of one length that compare equal are equal. -/
theorem exact_charCompare {len : Nat} {V : Set (List UInt8)} (hV : ∀ bytes ∈ V, IsCharField len bytes) :
    Exact (fun v1 v2 => CharType.compare (setString v1 len) (setString v2 len)) V := by
  refine @exact_absentFirst _ (fun v => (setString v len).isEmpty)
    (fun v1 v2 => compareString (setString v1 len) (setString v2 len)) V ?_
  intro a ha b hb h
  dsimp only at h
  rw [compareString_eq (setString_ne_zero a len)] at h
  exact charField_inj (hV a ha) (hV b hb) (eq_of_listCmp exact_compareByte h)

/-- So are two numbers that stand for NULL. -/
theorem lawful_intCompare_iff {null : Int32} {V : Set Int32} :
    Lawful (absentFirst (fun v => decide (v = null)) compareInt) V ↔ null ∉ V := by
  rw [lawful_absentFirst_iff]
  constructor
  · rintro ⟨hno, -⟩ hmem
    have := hno null hmem
    simp at this
  · intro hno
    refine ⟨fun v hv => ?_, lawful_compareInt V⟩
    rw [decide_eq_false_iff_not]
    rintro rfl
    exact hno hv

/-- **One field.** -/
theorem lawful_attrComparator_iff {f : FieldMeta} (V : ValueSet f) :
    Lawful (attrComparator f) V.values ↔ V.Ordered := by
  cases V with
  | dates values h => exact lawful_intCompare_iff
  | chars values h hV => exact lawful_charCompare_iff
  | ints values h => exact lawful_intCompare_iff
  | floats values h =>
    refine lawful_absentFirst_iff.trans (and_congr ?_ (lawful_toleranceCmp_iff epsilon_nonneg values))
    constructor
    · intro hno hmem
      have := hno floatNull hmem
      simp at this
    · intro hno v hv
      rw [decide_eq_false_iff_not]
      rintro rfl
      exact hno hv
  | vectors units h =>
    have hcmp : VectorType.compare = listCmp compareFloat :=
      funext fun l => funext fun r => vectorCompare_eq l r
    show Lawful VectorType.compare (listsOf units) ↔ _
    rw [hcmp, lawful_listsOf_iff h]
    exact forall₂_congr fun U _ => lawful_toleranceCmp_iff epsilon_nonneg U
  | booleans values h =>
    refine ⟨fun hlaw => ?_, False.elim⟩
    obtain ⟨v, hv⟩ := h
    exact absurd (hlaw.refl v hv) (by show ¬ (2 ^ 31 - 1 : Int) = 0; decide)

/-- Within an order, what is not told apart are floats that are close. -/
theorem exact_attrComparator_iff {f : FieldMeta} (V : ValueSet f) (hV : V.Ordered) :
    Exact (attrComparator f) V.values ↔ V.Separated := by
  cases V with
  | dates values h => exact ⟨fun _ => trivial, fun _ => exact_absentFirst (exact_compareInt values)⟩
  | chars values h hchars => exact ⟨fun _ => trivial, fun _ => exact_charCompare hchars⟩
  | ints values h => exact ⟨fun _ => trivial, fun _ => exact_absentFirst (exact_compareInt values)⟩
  | floats values h =>
    have hno := (lawful_absentFirst_iff.mp ((lawful_attrComparator_iff (.floats values h)).mpr hV)).1
    have hiff := exact_toleranceCmp_iff epsilon_nonneg values
    exact ⟨fun he => hiff.mp (exact_of_absentFirst hno he), fun hs => exact_absentFirst (hiff.mpr hs)⟩
  | vectors units h =>
    have hcmp : VectorType.compare = listCmp compareFloat :=
      funext fun l => funext fun r => vectorCompare_eq l r
    have hlaw : ∀ U ∈ units, Lawful compareFloat U := fun U hU =>
      (lawful_toleranceCmp_iff epsilon_nonneg U).mpr (hV U hU)
    show Exact VectorType.compare (listsOf units) ↔ _
    rw [hcmp, exact_listsOf_iff h hlaw]
    exact forall₂_congr fun U _ => exact_toleranceCmp_iff epsilon_nonneg U
  | booleans values h => exact hV.elim

/-! ## All fields -/

def ValueSets : List FieldMeta → Type
  | [] => Unit
  | f :: fs => ValueSet f × ValueSets fs

namespace ValueSets

/-- Every combination of values occurs in some row. -/
def keys : {fs : List FieldMeta} → ValueSets fs → Set (UserKey fs)
  | [], _ => Set.univ
  | _ :: _, V => V.1.values ×ˢ keys V.2

def Ordered : {fs : List FieldMeta} → ValueSets fs → Prop
  | [], _ => True
  | _ :: _, V => V.1.Ordered ∧ Ordered V.2

def Separated : {fs : List FieldMeta} → ValueSets fs → Prop
  | [], _ => True
  | _ :: _, V => V.1.Separated ∧ Separated V.2

theorem nonempty {fs : List FieldMeta} (V : ValueSets fs) : V.keys.Nonempty := by
  induction fs with
  | nil => exact ⟨(), trivial⟩
  | cons f fs ih => exact V.1.nonempty.prod (ih V.2)

end ValueSets

theorem lawful_attrsCompare_iff {fs : List FieldMeta} (V : ValueSets fs) :
    Lawful (attrsCompare fs) V.keys ↔ V.Ordered := by
  induction fs with
  | nil => exact ⟨fun _ => trivial, fun _ => ⟨fun _ _ => rfl, fun _ _ _ _ => Iff.rfl, fun _ _ _ _ _ _ h _ => h⟩⟩
  | cons f fs ih =>
    exact (lawful_lex_iff V.1.nonempty (ValueSets.nonempty V.2)).trans
      (and_congr (lawful_attrComparator_iff V.1) (ih V.2))

/-- And so for keys of several fields. -/
theorem exact_attrsCompare_iff {fs : List FieldMeta} (V : ValueSets fs) (hV : V.Ordered) :
    Exact (attrsCompare fs) V.keys ↔ V.Separated := by
  induction fs with
  | nil => exact ⟨fun _ => trivial, fun _ _ _ _ _ _ => rfl⟩
  | cons f fs ih =>
    refine (exact_lex_iff ((lawful_attrComparator_iff V.1).mpr hV.1)
      ((lawful_attrsCompare_iff V.2).mpr hV.2) V.1.nonempty (ValueSets.nonempty V.2)).trans ?_
    exact and_congr (exact_attrComparator_iff V.1 hV.1) (ih V.2 hV.2)

/-! ## The key comparator -/

/-- The comparison is a total order on the keys, with any record identifiers; where these are
    compared, only equal keys with equal record identifiers compare equal. -/
def TotalOrder (c : KeyComparator) (V : ValueSets c.fields) : Prop :=
  Lawful c.compare (V.keys ×ˢ Set.univ) ∧
    (c.unique = false → Exact c.compare (V.keys ×ˢ Set.univ))

theorem KeyComparator.compare_eq (c : KeyComparator) : c.compare = lexCmp (attrsCompare c.fields)
    fun r s => if c.unique then 0 else RID.compare r.toRID s.toRID := rfl

/-- **Headline.**  The comparator is a total order exactly if no NULL and no field without a comparison
    is indexed, and the floats of each field are told apart by `EPSILON`, or at least fall into
    classes. -/
theorem key_comparator_total_order_iff (c : KeyComparator) (V : ValueSets c.fields) :
    TotalOrder c V ↔ V.Ordered ∧ (c.unique = false → V.Separated) := by
  have hne : (Set.univ : Set RecordId).Nonempty := ⟨.min, trivial⟩
  have hrid : Lawful (fun r s : RecordId => if c.unique then 0 else RID.compare r.toRID s.toRID)
      Set.univ := by
    cases c.unique with
    | true => exact ⟨fun _ _ => rfl, fun _ _ _ _ => Iff.rfl, fun _ _ _ _ _ _ h _ => h⟩
    | false => exact lawful_ridCompare Set.univ
  have hlaw : Lawful c.compare (V.keys ×ˢ Set.univ) ↔ V.Ordered := by
    rw [c.compare_eq, lawful_lex_iff V.nonempty hne, lawful_attrsCompare_iff]
    exact and_iff_left hrid
  unfold TotalOrder
  rw [hlaw]
  refine and_congr_right fun hV => imp_congr_right fun hunique => ?_
  rw [c.compare_eq, exact_lex_iff ((lawful_attrsCompare_iff V).mpr hV) hrid V.nonempty hne,
    exact_attrsCompare_iff V hV]
  refine and_iff_left ?_
  rw [hunique]
  exact exact_ridCompare Set.univ

/-- An INTS field in which rows may hold any number, NULL among them. -/
theorem null_key_not_equal_to_itself : ¬ ∀ (c : KeyComparator) (V : ValueSets c.fields), TotalOrder c V := by
  intro h
  have hlaw := (h ⟨false, [⟨.ints, 4⟩]⟩ (.ints Set.univ ⟨0, trivial⟩, ())).1
  exact absurd (hlaw.refl ((intNull, ()), .min) ⟨⟨trivial, trivial⟩, trivial⟩) (by decide)

/-! ## The order of the trees -/

/-- A lawful comparison orders the values of the set. -/
theorem transCmp_of_lawful {α : Type} {cmp : α → α → Int} {S : Set α} (h : Lawful cmp S) :
    Std.TransCmp fun a b : S => sign (cmp a b) where
  eq_swap {a b} := by
    have hab := h.antisymm a a.2 b b.2
    have hba := h.antisymm b b.2 a a.2
    unfold sign
    rcases Int.lt_trichotomy (cmp a b) 0 with hlt | heq | hgt
    · rw [Int.compare_eq_lt.mpr hlt, Int.compare_eq_gt.mpr (hab.mp hlt)]
      rfl
    · rw [Int.compare_eq_eq.mpr heq, Int.compare_eq_eq.mpr (by omega)]
      rfl
    · rw [Int.compare_eq_gt.mpr hgt, Int.compare_eq_lt.mpr (hba.mpr hgt)]
      rfl
  isLE_trans {a b c} hab hbc := by
    have hle : ∀ x : Int, (sign x).isLE = true ↔ x ≤ 0 := fun x => by
      unfold sign
      exact Ordering.isLE_iff_ne_gt.trans ((not_congr Int.compare_eq_gt).trans not_lt)
    rw [hle] at hab hbc ⊢
    exact h.trans a a.2 b b.2 c c.2 hab hbc

/-- On the keys that the comparator orders, it is what the trees of the indexes rely on. -/
theorem attrsCompare_transCmp {fs : List FieldMeta} {V : ValueSets fs} (hV : V.Ordered) :
    Std.TransCmp fun k1 k2 : V.keys => sign (attrsCompare fs k1 k2) :=
  transCmp_of_lawful ((lawful_attrsCompare_iff V).mpr hV)

/-- The comparator of the trees is the sign of this one. -/
theorem keyComparator_sign (c : KeyComparator) (v1 v2 : UserKey c.fields × RecordId) :
    keyComparator c.unique (fun k1 k2 => sign (attrsCompare c.fields k1 k2)) (v1.1, v1.2.toRID)
      (v2.1, v2.2.toRID) = sign (c.compare v1 v2) := by
  unfold keyComparator KeyComparator.compare
  dsimp only
  by_cases h : attrsCompare c.fields v1.1 v2.1 = 0
  · rw [h]
    cases c.unique <;> rfl
  · rw [if_pos h]
    have hne : sign (attrsCompare c.fields v1.1 v2.1) ≠ .eq := fun heq => h (Int.compare_eq_eq.mp heq)
    split
    · rename_i heq
      exact absurd heq hne
    · rfl

end Miniob.Index
