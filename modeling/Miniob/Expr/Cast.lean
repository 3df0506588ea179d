/-
  Values and their conversion to the type of a column (`Value` in src/observer/common/value.h and
  `cast_to` of the types in src/observer/common/type).

  * A float is its 32 bits; `floatValue` is the number it stands for.
  * NULL is in band, as in the code: `INT_NULL`, `FLOAT_NULL`, `DATE_NULL` and the empty string.  What a
    statement gives is an `Item`, where the literal NULL and a number that looks like it are told apart.
  * `Converts` says what an item is in a column of a type, and `Faithful` when `castTo` gives that.

  What C++ leaves open (a number that does not fit into an `int`, what lies behind a value or behind a
  record in the memory) is a parameter.
-/
import Miniob.Expr.Text
import Miniob.Index.AttrComparator

namespace Miniob.Expr.Cast

open Miniob.Common Miniob.Index

/-! ## Values -/

/-- The types of `enum class AttrType` that `CREATE TABLE` can give a column. -/
inductive AttrType where
  | dates
  | chars
  | ints
  | floats
  | vectors
  deriving DecidableEq

/-- A `Value`, but for NULL and BOOLEANS. -/
inductive Value where
  | dates (date : Int32)
  /-- The `length_` bytes at `pointer_value_`. -/
  | chars (data : List UInt8)
  | ints (v : Int32)
  | floats (bits : Int32)
  /-- The floats, each as its bits. -/
  | vectors (units : List Int32)
  deriving DecidableEq

/-- How a conversion fails.  SUCCESS is not among them, so that no caller has to rule it out. -/
inductive RC where
  | invalidArgument
  | variableNotValid
  | unimplemented
  | unsupported
  | schemaFieldMissing
  deriving DecidableEq

/-- What C++ leaves open. -/
structure Unspecified where
  /-- `static_cast<int>` of a float that does not fit. -/
  floatToInt : Int32 → Int32
  /-- A number that `sscanf` reads, or a signed result, that does not fit. -/
  overflow : Int → Int32
  /-- The bytes behind the value that is copied to an offset. -/
  behindValue : Nat → Nat → UInt8
  /-- The bytes behind a record. -/
  behindRecord : Nat → UInt8

/-- The bits of `FLOAT_NULL`, which is `-FLT_MAX`. -/
def floatNullBits : Int32 := -8388609

namespace Value

def attrType : Value → AttrType
  | dates _ => .dates
  | chars _ => .chars
  | ints _ => .ints
  | floats _ => .floats
  | vectors _ => .vectors

/-- `Value::is_null`. -/
def isNull : Value → Bool
  | dates date => date = dateNull
  | chars data => data.headD 0 = 0
  | ints v => v = intNull
  | floats bits => bits = floatNullBits
  | vectors _ => false

/-- What a reader sees: no value if it is NULL. -/
def read (v : Value) : Option Value := if v.isNull then none else some v

end Value

/-- A string of a statement. -/
abbrev Text : Type := {s : List UInt8 // ∀ b ∈ s, b ≠ 0}

theorem noZeros {s : List UInt8} (h : (s.all fun b => b != 0) = true) : ∀ b ∈ s, b ≠ 0 := fun b hb =>
  bne_iff_ne.mp (List.all_eq_true.mp h b hb)

/-- What a statement gives for a column. -/
inductive Item where
  | null
  | dates (date : Int32)
  | chars (s : Text)
  | ints (v : Int32)
  | floats (bits : Int32)
  | vectors (units : List Int32)

/-- The `Value` it is in the code; NULL is `Value::NULL_VALUE`. -/
def Item.value : Item → Value
  | null => .ints intNull
  | dates date => .dates date
  | chars s => .chars s.val
  | ints v => .ints v
  | floats bits => .floats bits
  | vectors units => .vectors units

/-! ## Floats -/

/-- The number, unless it is infinite or not a number. -/
def floatValue (bits : Int32) : Option ℚ :=
  let n : Nat := (bits.toInt % 2 ^ 32).toNat
  let e : Nat := n / 2 ^ 23 % 2 ^ 8
  let m : Nat := n % 2 ^ 23
  let sign : ℚ := if bits < 0 then -1 else 1
  if e = 255 then none
  else if e = 0 then some (sign * m / 2 ^ 149)
  else some (sign * (2 ^ 23 + m) * 2 ^ e / 2 ^ 150)

/-- The mantissa with its leading bit: `a / 2^s`, to the nearest and to the even one of two. -/
def roundShift (a s : Nat) : Nat :=
  if 2 ^ s < 2 * (a % 2 ^ s) ∨ (2 * (a % 2 ^ s) = 2 ^ s ∧ a / 2 ^ s % 2 = 1) then a / 2 ^ s + 1 else a / 2 ^ s

/-- `static_cast<float>` of an integer. -/
def floatOfInt (v : Int32) : Int32 :=
  let a := v.toInt.natAbs
  let e := a.log2
  let m := if e ≤ 23 then a * 2 ^ (23 - e) else roundShift a (e - 23)
  if a = 0 then 0
  else .ofInt (((e + 126) * 2 ^ 23 + m : Nat) - if v < 0 then 2 ^ 31 else 0)

/-- Towards zero. -/
def trunc (q : ℚ) : Int := if q < 0 then ⌈q⌉ else ⌊q⌋

/-- An `int` holds it. -/
def Fits (z : Int) : Prop := -2 ^ 31 ≤ z ∧ z < 2 ^ 31

instance (z : Int) : Decidable (Fits z) := inferInstanceAs (Decidable (_ ∧ _))

/-- `static_cast<int>(f + 0.5)`. -/
def intOfFloat (u : Unspecified) (bits : Int32) : Int32 :=
  match floatValue bits with
  | none => u.floatToInt bits
  | some q => if Fits (trunc (q + 1 / 2)) then .ofInt (trunc (q + 1 / 2)) else u.floatToInt bits

/-- `std::to_string` of a float. -/
def floatText (bits : Int32) : List UInt8 :=
  match floatValue bits with
  | some q => fixedText (bits < 0) q
  | none =>
    (if bits < 0 then [45] else []) ++
      if bits.toInt % 2 ^ 23 = 0 then [105, 110, 102] else [110, 97, 110]

/-! ## `cast_to` -/

def Unspecified.narrow (u : Unspecified) (z : Int) : Int32 := if Fits z then .ofInt z else u.overflow z

/-- `IntegerType::cast_to`. -/
def IntegerType.castTo (v : Int32) (type : AttrType) : Except RC Value :=
  match type with
  | .ints => .ok (.ints v)
  | .floats => .ok (.floats (if v = intNull then floatNullBits else floatOfInt v))
  | .dates => if v ≠ intNull then .error .variableNotValid else .ok (.dates dateNull)
  | .chars => .ok (.chars (if v = intNull then [] else intText v.toInt))
  | .vectors => .error .variableNotValid

/-- `FloatType::cast_to`. -/
def FloatType.castTo (u : Unspecified) (bits : Int32) (type : AttrType) : Except RC Value :=
  match type with
  | .floats => .ok (.floats bits)
  | .ints => .ok (.ints (if bits = floatNullBits then intNull else intOfFloat u bits))
  | .dates => if bits ≠ floatNullBits then .error .variableNotValid else .ok (.dates dateNull)
  | .chars => .ok (.chars (if bits = floatNullBits then [] else floatText bits))
  | .vectors => .error .variableNotValid

/-- The case `DATES` of `CharType::cast_to`: what stands behind the date is not looked at. -/
def CharType.castToDate (u : Unspecified) (s : List UInt8) : Except RC Value :=
  match scanDate s with
  | none => .error .invalidArgument
  | some ((y, m, d), _) =>
    let y := (u.narrow y).toInt
    let m := (u.narrow m).toInt
    let d := (u.narrow d).toInt
    if checkData y m d then .ok (.dates (u.narrow (dateNumber y m d))) else .error .invalidArgument

/-- `CharType::cast_to`. -/
def CharType.castTo (u : Unspecified) (data : List UInt8) (type : AttrType) : Except RC Value :=
  let isNull := (Value.chars data).isNull
  match type with
  | .dates => if isNull then .ok (.dates dateNull) else castToDate u (setString data data.length)
  | .chars => .ok (.chars (if isNull then [] else setString data data.length))
  | .floats => if isNull then .ok (.floats floatNullBits) else .error .variableNotValid
  | .ints => if isNull then .ok (.ints intNull) else .error .variableNotValid
  | .vectors => .error .unimplemented

/-- `Value::cast_to`; dates and vectors have none of their own. -/
def castTo (u : Unspecified) (v : Value) (type : AttrType) : Except RC Value :=
  match v with
  | .ints v => IntegerType.castTo v type
  | .floats bits => FloatType.castTo u bits type
  | .chars data => CharType.castTo u data type
  | .dates _ => .error .unsupported
  | .vectors _ => .error .unsupported

/-- `Value::resize`. -/
def resize (v : Value) (len : Nat) : Except RC Value :=
  match v with
  | .vectors units => if 4 * units.length = len then .ok v else .error .invalidArgument
  | .chars data =>
    if data.length ≥ len then .ok v
    else if v.isNull then .ok (.chars [])
    else
      let s := data.takeWhile (· ≠ 0)
      .ok (.chars (s ++ List.replicate (len - s.length) 0))
  | v => .ok v

/-- The conversion of an inserted value; there is none if it has the type already. -/
def convert (u : Unspecified) (x : Item) (type : AttrType) : Except RC Value :=
  if type ≠ x.value.attrType then castTo u x.value type else .ok x.value

/-! ## What a conversion means -/

/-- What a column of the type holds of an item, with no value for NULL.  A float becomes the nearest
    integer (a half is rounded up), and a string is a date if nothing stands behind the date. -/
def Converts : Item → AttrType → Option Value → Prop
  | .null, _, r => r = none
  | .ints v, .ints, r => r = some (.ints v)
  | .ints v, .floats, r => r = some (.floats (floatOfInt v))
  | .ints v, .chars, r => r = some (.chars (intText v.toInt))
  | .floats bits, .floats, r => r = some (.floats bits)
  | .floats bits, .ints, r =>
    ∃ q v, floatValue bits = some q ∧ r = some (.ints v) ∧ v.toInt = ⌊q + 1 / 2⌋
  | .floats bits, .chars, r => r = some (.chars (floatText bits))
  | .dates date, .dates, r => r = some (.dates date)
  | .chars s, .chars, r => r = some (.chars s.val)
  | .chars s, .dates, r =>
    ∃ y m d v, scanDate s.val = some ((y, m, d), []) ∧ checkData y m d = true ∧
      r = some (.dates v) ∧ v.toInt = dateNumber y m d
  | .vectors units, .vectors, r => r = some (.vectors units)
  | _, _, _ => False

/-- The value survives its conversion: it is not the number or the string that stands for NULL, a
    float is rounded in the right direction, and a date is nothing but a date. -/
def Faithful : Item → AttrType → Prop
  | .null, _ => True
  | .ints v, _ => v ≠ intNull
  | .floats bits, .ints =>
    ∃ q, floatValue bits = some q ∧ -2 ^ 31 - 1 / 2 < q ∧ q < 2 ^ 31 - 1 / 2 ∧
      (-1 / 2 < q ∨ ∃ n : Int, q + 1 / 2 = n)
  | .floats bits, _ => bits ≠ floatNullBits
  | .dates date, _ => date ≠ dateNull
  | .chars s, .dates =>
    ∃ y m d, scanDate s.val = some ((y, m, d), []) ∧ checkData y m d = true ∧ dateNumber y m d < 2 ^ 31
  | .chars s, _ => s.val ≠ []
  | .vectors _, _ => True

/-! ## Numbers -/

theorem toInt_intNull : intNull.toInt = -2 ^ 31 := by decide

theorem toInt_ofInt_of_fits {z : Int} (h : Fits z) : (Int32.ofInt z).toInt = z :=
  Int32.toInt_ofInt_of_le h.1 h.2

theorem fits_toInt (v : Int32) : Fits v.toInt := ⟨v.le_toInt, v.toInt_lt⟩

theorem toInt_narrow (u : Unspecified) {z : Int} (h : Fits z) : (u.narrow z).toInt = z := by
  unfold Unspecified.narrow
  rw [if_pos h, toInt_ofInt_of_fits h]

theorem roundShift_le {a s : Nat} (h : a < 2 ^ s * 2 ^ 24) : roundShift a s ≤ 2 ^ 24 := by
  have hq : a / 2 ^ s < 2 ^ 24 := Nat.div_lt_of_lt_mul h
  unfold roundShift
  split <;> omega

/-- No integer becomes the float that stands for NULL. -/
theorem floatOfInt_ne_null (v : Int32) : floatOfInt v ≠ floatNullBits := by
  have hv := fits_toInt v
  unfold Fits at hv
  unfold floatOfInt
  generalize ha : v.toInt.natAbs = a
  intro h
  dsimp only at h
  split at h
  · exact absurd h (by decide)
  · rename_i ha0
    have he : a.log2 < 32 := (Nat.log2_lt ha0).mpr (by omega)
    have hlt : a < 2 ^ (a.log2 + 1) := Nat.lt_log2_self
    -- the mantissa has 24 bits, and a 25th only if it was rounded up to it
    have hm : (if a.log2 ≤ 23 then a * 2 ^ (23 - a.log2) else roundShift a (a.log2 - 23)) ≤ 2 ^ 24 := by
      split
      · rename_i hle
        calc a * 2 ^ (23 - a.log2) ≤ 2 ^ (a.log2 + 1) * 2 ^ (23 - a.log2) :=
              Nat.mul_le_mul_right _ (Nat.le_of_lt hlt)
          _ = 2 ^ 24 := by rw [← pow_add, show a.log2 + 1 + (23 - a.log2) = 24 by omega]
      · refine roundShift_le ?_
        rw [← pow_add, show a.log2 - 23 + 24 = a.log2 + 1 by omega]
        exact hlt
    generalize (if a.log2 ≤ 23 then a * 2 ^ (23 - a.log2) else roundShift a (a.log2 - 23)) = m at h hm
    have hint := congrArg Int32.toInt h
    rw [show floatNullBits.toInt = -8388609 by decide] at hint
    split at hint
    · rw [toInt_ofInt_of_fits (by unfold Fits; omega)] at hint
      omega
    · rw [toInt_ofInt_of_fits (by unfold Fits; omega)] at hint
      omega

theorem floatValue_null : floatValue floatNullBits = some (-((2 ^ 24 - 1) * 2 ^ 104)) := by
  decide +kernel

/-- Rounding to zero is rounding down, but for negative fractions. -/
theorem trunc_eq_floor_iff (q : ℚ) : trunc q = ⌊q⌋ ↔ 0 ≤ q ∨ ∃ n : Int, q = n := by
  unfold trunc
  constructor
  · intro h
    rcases lt_or_ge q 0 with hq | hq
    · rw [if_pos hq] at h
      exact Or.inr ⟨⌊q⌋, le_antisymm (h ▸ Int.le_ceil q) (Int.floor_le q)⟩
    · exact Or.inl hq
  · rintro (hq | ⟨n, rfl⟩)
    · rw [if_neg (not_lt.mpr hq)]
    · split
      · rw [Int.ceil_intCast, Int.floor_intCast]
      · rfl

/-- Below zero the next integer is taken, unless the number is one. -/
theorem trunc_eq_or (q : ℚ) : trunc q = ⌊q⌋ ∨ trunc q = ⌊q⌋ + 1 ∧ trunc q ≤ 0 := by
  unfold trunc
  split
  · rename_i hq
    rcases (Int.ceil_le_floor_add_one q).lt_or_eq with h | h
    · exact Or.inl (le_antisymm (by omega) (Int.floor_le_ceil q))
    · exact Or.inr ⟨h, Int.ceil_le.mpr (by exact_mod_cast hq.le)⟩
  · exact Or.inl rfl

/-! ## The conversion of one item -/

section

variable {u : Unspecified} {t : AttrType} {w : Value}

/-- A value has the type that it was cast to, and none is cast to a vector. -/
theorem castTo_ok {value real : Value} {type : AttrType} (h : castTo u value type = .ok real) :
    real.attrType = type ∧ type ≠ .vectors := by
  cases value with
  | dates v => cases h
  | vectors units => cases h
  | ints v =>
    dsimp only [castTo, IntegerType.castTo] at h
    cases type with
    | ints | floats | chars =>
      cases h
      exact ⟨rfl, by decide⟩
    | vectors => cases h
    | dates =>
      dsimp only at h
      split at h
      · cases h
      · cases h
        exact ⟨rfl, by decide⟩
  | floats bits =>
    dsimp only [castTo, FloatType.castTo] at h
    cases type with
    | ints | floats | chars =>
      cases h
      exact ⟨rfl, by decide⟩
    | vectors => cases h
    | dates =>
      dsimp only at h
      split at h
      · cases h
      · cases h
        exact ⟨rfl, by decide⟩
  | chars data =>
    dsimp only [castTo, CharType.castTo] at h
    cases type with
    | chars =>
      cases h
      exact ⟨rfl, by decide⟩
    | vectors => cases h
    | ints | floats =>
      dsimp only at h
      split at h
      · cases h
        exact ⟨rfl, by decide⟩
      · cases h
    | dates =>
      dsimp only at h
      split at h
      · cases h
        exact ⟨rfl, by decide⟩
      · unfold CharType.castToDate at h
        split at h
        · cases h
        · dsimp only at h
          split at h
          · cases h
            exact ⟨rfl, by decide⟩
          · cases h

/-- A conversion gives the type it was asked for. -/
theorem attrType_of_convert {x : Item} (h : convert u x t = .ok w) : w.attrType = t := by
  unfold convert at h
  split at h
  · exact (castTo_ok h).1
  · rename_i ht
    rw [not_ne_iff] at ht
    rw [← Except.ok.inj h, ht]

theorem read_eq_some {v r : Value} : v.read = some r ↔ v.isNull = false ∧ v = r := by
  unfold Value.read
  split <;> simp_all

theorem read_eq_none {v : Value} : v.read = none ↔ v.isNull = true := by
  unfold Value.read
  split <;> simp_all

/-- NULL goes into a column of any type but VECTORS. -/
theorem isNull_of_convert_null (h : convert u .null t = .ok w) : w.isNull = true := by
  cases t <;> simp [convert, Item.value, Value.attrType, castTo, IntegerType.castTo] at h <;>
    subst h <;> rfl

/-- A float into an INT column. -/
theorem toInt_intOfFloat_iff (u : Unspecified) {bits : Int32} {q : ℚ} (hq : floatValue bits = some q) :
    (intOfFloat u bits).toInt = ⌊q + 1 / 2⌋ ↔
      Fits ⌊q + 1 / 2⌋ ∧ (0 ≤ q + 1 / 2 ∨ ∃ n : Int, q + 1 / 2 = n) := by
  rw [← trunc_eq_floor_iff]
  unfold intOfFloat
  rw [hq]
  dsimp only
  have hor := trunc_eq_or (q + 1 / 2)
  split
  · rename_i hfits
    rw [toInt_ofInt_of_fits hfits]
    constructor
    · intro h
      exact ⟨h ▸ hfits, h⟩
    · exact fun h => h.2
  · rename_i hfits
    constructor
    · intro h
      have hfloor : Fits ⌊q + 1 / 2⌋ := h ▸ fits_toInt _
      unfold Fits at hfits hfloor
      exact absurd hor (by omega)
    · rintro ⟨h, heq⟩
      exact absurd (heq ▸ h) hfits

theorem isNull_chars_of_ne {s : List UInt8} (hne : s ≠ []) (h0 : ∀ b ∈ s, b ≠ 0) :
    (Value.chars s).isNull = false := by
  obtain ⟨b, s, rfl⟩ := List.exists_cons_of_ne_nil hne
  exact decide_eq_false (h0 b List.mem_cons_self)

/-- An integer goes anywhere, but for the one that stands for NULL. -/
theorem convert_ints {v : Int32} (h : convert u (.ints v) t = .ok w) :
    Converts (.ints v) t w.read ↔ v ≠ intNull := by
  by_cases hv : v = intNull
  · subst hv
    have hw : w.isNull = true := isNull_of_convert_null h
    rw [read_eq_none.mpr hw]
    cases t <;> simp [Converts]
  · cases t <;> simp [convert, Item.value, Value.attrType, castTo, IntegerType.castTo, hv] at h <;>
      subst h <;> simp [Converts, read_eq_some, Value.isNull, hv]
    · have hnull := isNull_chars_of_ne (intText_ne_nil v.toInt) (intText_ne_zero v.toInt)
      simpa [Value.isNull] using hnull
    · exact floatOfInt_ne_null v

theorem floatText_ne_nil (bits : Int32) : floatText bits ≠ [] := by
  unfold floatText
  split
  · exact fixedText_ne_nil _ _
  · split <;> split <;> exact List.cons_ne_nil _ _

theorem floatText_ne_zero (bits : Int32) : ∀ b ∈ floatText bits, b ≠ 0 := by
  unfold floatText
  split
  · exact fixedText_ne_zero _ _
  · split <;> split <;> exact noZeros rfl

theorem isNull_floatText (bits : Int32) : (Value.chars (floatText bits)).isNull = false :=
  isNull_chars_of_ne (floatText_ne_nil bits) (floatText_ne_zero bits)

/-- A float becomes the integer that is closest to it, if it fits; below zero, ties and fractions go wrong. -/
theorem convert_floats_ints {bits : Int32} (h : convert u (.floats bits) .ints = .ok w) :
    Converts (.floats bits) .ints w.read ↔ Faithful (.floats bits) .ints := by
  simp only [convert, Item.value, Value.attrType, castTo, FloatType.castTo, ne_eq, reduceCtorEq,
    not_false_eq_true, if_true, Except.ok.injEq] at h
  subst h
  simp only [Converts, Faithful]
  by_cases hnull : bits = floatNullBits
  · -- the number is far below every integer
    subst hnull
    rw [if_pos rfl, floatValue_null, read_eq_none.mpr (by rfl)]
    constructor
    · rintro ⟨q, v, -, hv, -⟩
      exact absurd hv (by simp)
    · rintro ⟨q, hq, hlow, -⟩
      rw [← Option.some.inj hq] at hlow
      norm_num at hlow
  · rw [if_neg hnull]
    constructor
    · rintro ⟨q, v, hq, hread, hv⟩
      obtain ⟨hne, heq⟩ := read_eq_some.mp hread
      cases heq
      obtain ⟨hfits, hside⟩ := (toInt_intOfFloat_iff u hq).mp hv
      have hmin : ⌊q + 1 / 2⌋ ≠ -2 ^ 31 := by
        rw [← hv, ← toInt_intNull]
        exact fun h => absurd (Int32.toInt.inj h) (of_decide_eq_false hne)
      have hlow : -2 ^ 31 + 1 ≤ ⌊q + 1 / 2⌋ := by
        unfold Fits at hfits
        omega
      have hlow := Int.le_floor.mp hlow
      have hhigh := Int.floor_lt.mp hfits.2
      push_cast at hlow hhigh
      refine ⟨q, hq, by linarith, by linarith, ?_⟩
      rcases hside with h0 | hn
      · rcases h0.lt_or_eq with h0 | h0
        · exact Or.inl (by linarith)
        · exact Or.inr ⟨0, by rw [← h0]; norm_num⟩
      · exact Or.inr hn
    · rintro ⟨q, hq, hlow, hhigh, hside⟩
      have hfloor : -2 ^ 31 < ⌊q + 1 / 2⌋ := by
        rcases hside with h0 | ⟨n, hn⟩
        · have : (0 : Int) ≤ ⌊q + 1 / 2⌋ := Int.floor_nonneg.mpr (by linarith)
          omega
        · rw [hn, Int.floor_intCast]
          have : ((-2 ^ 31 : Int) : ℚ) < n := by
            push_cast
            linarith
          exact_mod_cast this
      have hfits : Fits ⌊q + 1 / 2⌋ := by
        refine ⟨le_of_lt hfloor, Int.floor_lt.mpr ?_⟩
        push_cast
        linarith
      have hv := (toInt_intOfFloat_iff u hq).mpr
        ⟨hfits, hside.imp (fun h => by linarith) id⟩
      refine ⟨q, _, hq, read_eq_some.mpr ⟨decide_eq_false fun h => ?_, rfl⟩, hv⟩
      rw [h, toInt_intNull] at hv
      omega

/-- The types that a float can be converted to. -/
theorem convert_floats {bits : Int32} (h : convert u (.floats bits) t = .ok w) :
    Converts (.floats bits) t w.read ↔ Faithful (.floats bits) t := by
  by_cases ht : t = .ints
  · subst ht
    exact convert_floats_ints h
  by_cases hnull : bits = floatNullBits
  · subst hnull
    cases t <;> simp [convert, Item.value, Value.attrType, castTo, FloatType.castTo] at h ht <;>
      subst h <;> simp [Converts, Faithful, read_eq_some, Value.isNull]
  · cases t <;> simp [convert, Item.value, Value.attrType, castTo, FloatType.castTo, hnull] at h ht <;>
      subst h <;> simp [Converts, Faithful, read_eq_some, isNull_floatText, hnull]
    exact decide_eq_false hnull

theorem convert_dates {date : Int32} (h : convert u (.dates date) t = .ok w) :
    Converts (.dates date) t w.read ↔ date ≠ dateNull := by
  cases t <;> simp [convert, Item.value, Value.attrType, castTo] at h
  subst h
  simp [Converts, read_eq_some, Value.isNull]

/-- The numbers of a date are small. -/
theorem fits_of_checkData {y m d : Int} (h : checkData y m d = true) (hlt : dateNumber y m d < 2 ^ 31) :
    Fits y ∧ Fits m ∧ Fits d ∧ Fits (dateNumber y m d) := by
  have hpos := dateNumber_pos h
  have hd : d ≤ 32 := by
    unfold checkData at h
    rw [decide_eq_true_eq] at h
    obtain ⟨-, hm0, hm, -, h⟩ := h
    have : ∀ k < 13, ([0, 31, 28, 31, 30, 31, 30, 31, 31, 30, 31, 30, 31] : List Int).getD k 0 ≤ 31 := by
      decide
    have := this m.toNat (by omega)
    split at h <;> omega
  unfold checkData at h
  rw [decide_eq_true_eq] at h
  unfold dateNumber at *
  unfold Fits
  omega

/-- A date that is read to its end. -/
theorem castToDate_eq {s : List UInt8} {y m d : Int} {rest : List UInt8}
    (hscan : scanDate s = some ((y, m, d), rest)) (h : checkData y m d = true)
    (hlt : dateNumber y m d < 2 ^ 31) :
    CharType.castToDate u s = .ok (.dates (u.narrow (dateNumber y m d))) := by
  obtain ⟨hy, hm, hd, -⟩ := fits_of_checkData h hlt
  unfold CharType.castToDate
  rw [hscan]
  simp only [toInt_narrow u hy, toInt_narrow u hm, toInt_narrow u hd, h, if_true]

theorem setString_text (s : Text) : setString s.val s.val.length = s.val := by
  unfold setString
  rw [List.take_length, List.takeWhile_eq_self_iff]
  exact fun b hb => decide_eq_true (s.property b hb)

theorem scanDate_nil : scanDate [] = none := rfl

/-- A string into a DATE column: what stands behind the date is lost. -/
theorem convert_chars_dates {s : Text} (h : convert u (.chars s) .dates = .ok w) :
    Converts (.chars s) .dates w.read ↔ Faithful (.chars s) .dates := by
  simp only [convert, Item.value, Value.attrType, castTo, CharType.castTo, ne_eq, reduceCtorEq,
    not_false_eq_true, if_true, setString_text] at h
  simp only [Converts, Faithful]
  split at h
  · rename_i hnull
    have hs : s.val = [] := by
      by_contra hne
      exact absurd hnull (by simp [isNull_chars_of_ne hne s.property])
    rw [hs, scanDate_nil]
    simp
  · constructor
    · rintro ⟨y, m, d, v, hscan, hcheck, -, hv⟩
      exact ⟨y, m, d, hscan, hcheck, hv ▸ v.toInt_lt⟩
    · rintro ⟨y, m, d, hscan, hcheck, hlt⟩
      have hv := toInt_narrow u (fits_of_checkData hcheck hlt).2.2.2
      have hpos := dateNumber_pos hcheck
      rw [castToDate_eq hscan hcheck hlt] at h
      refine ⟨y, m, d, _, hscan, hcheck, read_eq_some.mpr ⟨?_, (Except.ok.inj h).symm⟩, hv⟩
      rw [← Except.ok.inj h]
      refine decide_eq_false fun hnull => ?_
      rw [hnull, show dateNull.toInt = -2 ^ 31 by decide] at hv
      omega

/-- A text is read as a number or a date if it is one. -/
theorem convert_chars {s : Text} (h : convert u (.chars s) t = .ok w) :
    Converts (.chars s) t w.read ↔ Faithful (.chars s) t := by
  by_cases hs : s.val = []
  · cases t with
    | dates => exact convert_chars_dates h
    | vectors => simp [convert, Item.value, Value.attrType, castTo, CharType.castTo] at h
    | chars | ints | floats =>
      simp [convert, Item.value, Value.attrType, castTo, CharType.castTo, Value.isNull, hs] at h
      subst h
      simp [Converts, Faithful, read_eq_some, Value.isNull, hs]
  · have hnull := isNull_chars_of_ne hs s.property
    cases t with
    | dates => exact convert_chars_dates h
    | chars =>
      simp [convert, Item.value, Value.attrType] at h
      subst h
      simp [Converts, Faithful, read_eq_some, hnull, hs]
    | ints | floats | vectors =>
      simp [convert, Item.value, Value.attrType, castTo, CharType.castTo, hnull] at h

/-- What becomes of an item is what it should be exactly when it is faithful. -/
theorem converts_read_iff {x : Item} (h : convert u x t = .ok w) : Converts x t w.read ↔ Faithful x t := by
  cases x with
  | null =>
    rw [read_eq_none.mpr (isNull_of_convert_null h)]
    simp [Converts, Faithful]
  | ints v => exact convert_ints h
  | floats bits => exact convert_floats h
  | dates date => exact convert_dates h
  | chars s => exact convert_chars h
  | vectors units =>
    cases t <;> simp [convert, Item.value, Value.attrType, castTo] at h
    subst h
    simp [Converts, Faithful, read_eq_some, Value.isNull]

/-! ## A number of which only the lowest byte is sure -/

/-- Numbers of one type with the same lowest byte. -/
def Value.SameLow : Value → Value → Prop
  | ints v, ints r => r.toInt % 256 = v.toInt % 256
  | floats v, floats r => r.toInt % 256 = v.toInt % 256
  | dates v, dates r => r.toInt % 256 = v.toInt % 256
  | _, _ => False

/-- There is one number that an item can be. -/
theorem Converts.unique {x : Item} {r : Value} (hw : Converts x t w.read) (hr : Converts x t r.read)
    (hlow : w.SameLow r) : r = w := by
  cases x with
  | null =>
    rw [Converts, read_eq_none] at hw hr
    cases w <;> cases r <;> simp_all [Value.SameLow, Value.isNull]
  | ints v | dates date | vectors units =>
    cases t <;> simp only [Converts, read_eq_some] at hw hr
    all_goals exact hr.2.trans hw.2.symm
  | floats bits =>
    cases t <;> simp only [Converts, read_eq_some] at hw hr
    case ints =>
      obtain ⟨q, v, hq, ⟨-, rfl⟩, hv⟩ := hr
      obtain ⟨q', v', hq', ⟨-, rfl⟩, hv'⟩ := hw
      cases hq.symm.trans hq'
      rw [Int32.toInt.inj (hv.trans hv'.symm)]
    all_goals exact hr.2.trans hw.2.symm
  | chars s =>
    cases t <;> simp only [Converts, read_eq_some] at hw hr
    case dates =>
      obtain ⟨y, m, d, v, hscan, -, ⟨-, rfl⟩, hv⟩ := hr
      obtain ⟨y', m', d', v', hscan', -, ⟨-, rfl⟩, hv'⟩ := hw
      cases hscan.symm.trans hscan'
      rw [Int32.toInt.inj (hv.trans hv'.symm)]
    all_goals exact hr.2.trans hw.2.symm

/-- A float that is rounded in the wrong direction has another lowest byte. -/
theorem eq_of_converts_floats_ints {bits : Int32} {r : Value} (h : convert u (.floats bits) .ints = .ok w)
    (hlow : w.SameLow r) (hr : Converts (.floats bits) .ints r.read) : r = w := by
  simp only [convert, Item.value, Value.attrType, castTo, FloatType.castTo, ne_eq, reduceCtorEq,
    not_false_eq_true, if_true, Except.ok.injEq] at h
  subst h
  simp only [Converts, read_eq_some] at hr
  obtain ⟨q, v, hq, ⟨-, rfl⟩, hv⟩ := hr
  have hfits : Fits ⌊q + 1 / 2⌋ := hv ▸ fits_toInt v
  split at hlow
  · rename_i hnull
    subst hnull
    rw [floatValue_null, Option.some_inj] at hq
    subst hq
    exact absurd (Int.le_floor.mp hfits.1) (by norm_num)
  · rename_i hnull
    rw [if_neg hnull]
    simp only [Value.SameLow] at hlow
    have hor := trunc_eq_or (q + 1 / 2)
    unfold intOfFloat at hlow ⊢
    rw [hq] at hlow ⊢
    dsimp only at hlow ⊢
    split at hlow
    · rename_i htrunc
      rw [if_pos htrunc]
      rw [toInt_ofInt_of_fits htrunc, hv] at hlow
      have heq : ⌊q + 1 / 2⌋ = trunc (q + 1 / 2) := by omega
      rw [← heq, ← hv, Int32.ofInt_toInt]
    · rename_i htrunc
      unfold Fits at hfits htrunc
      exact absurd hor (by omega)

/-- If another number is what the column should hold, then it does not have the lowest byte of the number
    that is stored. -/
theorem eq_of_converts {x : Item} {r : Value} (h : convert u x t = .ok w) (hlow : w.SameLow r)
    (hr : Converts x t r.read) : r = w := by
  have hfaithful : Faithful x t → r = w := fun hf => ((converts_read_iff h).mpr hf).unique hr hlow
  cases x with
  | null => exact hfaithful trivial
  | vectors units => exact hfaithful trivial
  | ints v =>
    by_cases hv : v = intNull
    · subst hv
      cases t <;> simp only [Converts, read_eq_some] at hr <;> obtain ⟨hnull, rfl⟩ := hr
      case ints => exact absurd hnull (by decide)
      case floats =>
        simp only [convert, Item.value, Value.attrType, castTo, IntegerType.castTo, ne_eq, reduceCtorEq,
          not_false_eq_true, if_true, Except.ok.injEq] at h
        subst h
        -- the lowest bytes are 0xff and 0
        have hlow : (floatOfInt intNull).toInt % 256 = floatNullBits.toInt % 256 := hlow
        exact absurd hlow (by decide +kernel)
      case chars => cases w <;> exact hlow.elim
    · exact hfaithful hv
  | dates date =>
    refine hfaithful fun hnull => ?_
    subst hnull
    cases t <;> simp only [Converts, read_eq_some] at hr
    obtain ⟨hnull, rfl⟩ := hr
    exact absurd hnull (by decide)
  | floats bits =>
    cases t with
    | ints => exact eq_of_converts_floats_ints h hlow hr
    | dates => exact hr.elim
    | vectors => exact hr.elim
    | floats =>
      refine hfaithful fun hnull => ?_
      subst hnull
      rw [Converts, read_eq_some] at hr
      obtain ⟨hnull, rfl⟩ := hr
      exact absurd hnull (by decide)
    | chars =>
      rw [Converts, read_eq_some] at hr
      obtain ⟨-, rfl⟩ := hr
      cases w <;> exact hlow.elim
  | chars s =>
    cases t with
    | dates =>
      refine hfaithful ?_
      obtain ⟨y, m, d, v, hscan, hcheck, -, hv⟩ := hr
      exact ⟨y, m, d, hscan, hcheck, hv ▸ v.toInt_lt⟩
    | chars =>
      rw [Converts, read_eq_some] at hr
      obtain ⟨-, rfl⟩ := hr
      cases w <;> exact hlow.elim
    | ints => exact hr.elim
    | floats => exact hr.elim
    | vectors => exact hr.elim

/-! ## Strings -/

/-- The text of an item has no NUL. -/
theorem ne_zero_of_convert {x : Item} {s : List UInt8} (h : convert u x t = .ok (.chars s)) :
    ∀ b ∈ s, b ≠ 0 := by
  have ht : t = .chars := (attrType_of_convert h).symm
  subst ht
  cases x with
  | null =>
    cases h
    exact List.forall_mem_nil _
  | ints v =>
    simp only [convert, Item.value, Value.attrType, castTo, IntegerType.castTo, ne_eq, reduceCtorEq,
      not_false_eq_true, if_true, Except.ok.injEq, Value.chars.injEq] at h
    subst h
    split
    · exact List.forall_mem_nil _
    · exact intText_ne_zero _
  | floats bits =>
    simp only [convert, Item.value, Value.attrType, castTo, FloatType.castTo, ne_eq, reduceCtorEq,
      not_false_eq_true, if_true, Except.ok.injEq, Value.chars.injEq] at h
    subst h
    split
    · exact List.forall_mem_nil _
    · exact floatText_ne_zero _
  | chars s =>
    simp only [convert, Item.value, Value.attrType, ne_eq, not_true_eq_false, if_false, Except.ok.injEq,
      Value.chars.injEq] at h
    subst h
    exact s.property
  | dates date | vectors units => simp [convert, Item.value, Value.attrType, castTo] at h

/-- There is one text that an item can be. -/
theorem Converts.eq_chars {x : Item} {s : List UInt8} {r : Option Value}
    (h : convert u x .chars = .ok (.chars s)) (hs : s ≠ []) (hr : Converts x .chars r) :
    r = some (.chars s) := by
  cases x with
  | null =>
    have hnull := isNull_of_convert_null h
    rw [isNull_chars_of_ne hs (ne_zero_of_convert h)] at hnull
    cases hnull
  | ints v =>
    simp only [convert, Item.value, Value.attrType, castTo, IntegerType.castTo, ne_eq, reduceCtorEq,
      not_false_eq_true, if_true, Except.ok.injEq, Value.chars.injEq] at h
    subst h
    split at hs
    · exact absurd rfl hs
    · rename_i hv
      rw [if_neg hv]
      exact hr
  | floats bits =>
    simp only [convert, Item.value, Value.attrType, castTo, FloatType.castTo, ne_eq, reduceCtorEq,
      not_false_eq_true, if_true, Except.ok.injEq, Value.chars.injEq] at h
    subst h
    split at hs
    · exact absurd rfl hs
    · rename_i hbits
      rw [if_neg hbits]
      exact hr
  | chars s' =>
    simp only [convert, Item.value, Value.attrType, ne_eq, not_true_eq_false, if_false, Except.ok.injEq,
      Value.chars.injEq] at h
    subst h
    exact hr
  | dates date => exact hr.elim
  | vectors units => exact hr.elim

end

end Miniob.Expr.Cast
