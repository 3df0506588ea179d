/-
  Arithmetic expressions over INT and FLOAT operands (`ArithmeticExpr` in
  src/observer/sql/expr/expression.cpp and the operators of the types in src/observer/common/type).

  NULL is in band: it is the number `INT_NULL` or `FLOAT_NULL`, and the operators calculate with it as
  with any other.  So the value of an expression is NULL if the calculation happens to end at that
  number (`Hits`), and not if an operand was NULL.

  * `getValue` is what the code computes, floats as exact rationals.
  * `sql` is what the expression should be: NULL if an operand is NULL or a division by zero occurs,
    and else the number, of 32 bits if both operands are INTs.
  * `Good` says at each operator what has to be true of the numbers that come in.

  Left out: VECTORS, and strings that are read as numbers.
-/
import Miniob.Index.AttrComparator

namespace Miniob.Expr

open Miniob.Index

/-! ## Numbers -/

/-- The numeric types of `AttrType`. -/
inductive NumberType where
  | ints
  | floats
  deriving DecidableEq

/-- A `Value` of a numeric type. -/
inductive Number where
  | ints (v : Int32)
  | floats (v : ℚ)
  deriving DecidableEq

/-- NULL of the type. -/
def NumberType.null : NumberType → Number
  | ints => .ints intNull
  | floats => .floats floatNull

namespace Number

def type : Number → NumberType
  | ints _ => .ints
  | floats _ => .floats

/-- `Value::is_null`. -/
def isNull : Number → Bool
  | ints v => v = intNull
  | floats v => v = floatNull

/-- `Value::get_int`: a FLOAT is cut off.  C++ does not define the result if it is out of range. -/
def getInt : Number → Int32
  | ints v => v
  | floats v => Int32.ofInt (v.num.tdiv v.den)

/-- `Value::get_float`. -/
def getFloat : Number → ℚ
  | ints v => v.toInt
  | floats v => v

end Number

/-! ## The operators of the types -/

namespace IntegerType

def add (left right : Number) : Number := .ints (left.getInt + right.getInt)

def subtract (left right : Number) : Number := .ints (left.getInt - right.getInt)

def multiply (left right : Number) : Number := .ints (left.getInt * right.getInt)

/-- No expression gets here: a division is of type FLOATS. -/
def divide (left right : Number) : Number :=
  if right.getFloat = 0 then .ints intNull else .floats (left.getFloat / right.getFloat)

def negative (val : Number) : Number := .ints (-val.getInt)

end IntegerType

namespace FloatType

def add (left right : Number) : Number := .floats (left.getFloat + right.getFloat)

def subtract (left right : Number) : Number := .floats (left.getFloat - right.getFloat)

def multiply (left right : Number) : Number := .floats (left.getFloat * right.getFloat)

def divide (left right : Number) : Number :=
  if right.getFloat > -epsilon ∧ right.getFloat < epsilon then .floats floatNull
  else .floats (left.getFloat / right.getFloat)

def negative (val : Number) : Number := .floats (-val.getFloat)

end FloatType

/-- `Value::negative` for a result of the type. -/
def NumberType.negative : NumberType → Number → Number
  | ints => IntegerType.negative
  | floats => FloatType.negative

/-- `ArithmeticExpr::Type` with two operands. -/
inductive ArithmeticType where
  | add
  | sub
  | mul
  | div
  deriving DecidableEq

/-- `ArithmeticExpr::value_type`. -/
def ArithmeticType.valueType (op : ArithmeticType) (left right : NumberType) : NumberType :=
  if left = .ints ∧ right = .ints ∧ op ≠ .div then .ints else .floats

/-- `ArithmeticExpr::calc_value` for a result of the type. -/
def calcValue (op : ArithmeticType) : NumberType → Number → Number → Number
  | .ints => match op with
    | .add => IntegerType.add
    | .sub => IntegerType.subtract
    | .mul => IntegerType.multiply
    | .div => IntegerType.divide
  | .floats => match op with
    | .add => FloatType.add
    | .sub => FloatType.subtract
    | .mul => FloatType.multiply
    | .div => FloatType.divide

/-! ## Expressions -/

/-- What a column holds in a row, or a literal: `none` is NULL. -/
inductive Operand where
  | ints (v : Option Int32)
  | floats (v : Option ℚ)
  deriving DecidableEq

namespace Operand

def type : Operand → NumberType
  | ints _ => .ints
  | floats _ => .floats

/-- The `Value` it is in the code. -/
def value : Operand → Number
  | ints v => .ints (v.getD intNull)
  | floats v => .floats (v.getD floatNull)

end Operand

/-- An `ArithmeticExpr`, or one of the expressions it is made of. -/
inductive ArithmeticExpr where
  /-- `FieldExpr` or `ValueExpr`. -/
  | operand (o : Operand)
  /-- The type `NEGATIVE`. -/
  | negative (left : ArithmeticExpr)
  | arithmetic (op : ArithmeticType) (left right : ArithmeticExpr)

namespace ArithmeticExpr

/-- `value_type`. -/
def valueType : ArithmeticExpr → NumberType
  | operand o => o.type
  | negative left => left.valueType
  | arithmetic op left right => op.valueType left.valueType right.valueType

/-- `get_value`. -/
def getValue : ArithmeticExpr → Number
  | operand o => o.value
  | negative left => left.getValue.type.negative left.getValue
  | arithmetic op left right =>
    calcValue op (op.valueType left.valueType right.valueType) left.getValue right.getValue

end ArithmeticExpr

/-! ## What an expression should be -/

/-- The result of an operator on two numbers, of 32 bits if both are INTs. -/
def Number.combine (f : Int → Int → Int) (g : ℚ → ℚ → ℚ) : Number → Number → Number
  | ints a, ints b => .ints (Int32.ofInt (f a.toInt b.toInt))
  | a, b => .floats (g a.getFloat b.getFloat)

/-- There is no result if the operator divides by zero. -/
def ArithmeticType.exact (op : ArithmeticType) (left right : Number) : Option Number :=
  match op with
  | .add => some (Number.combine (· + ·) (· + ·) left right)
  | .sub => some (Number.combine (· - ·) (· - ·) left right)
  | .mul => some (Number.combine (· * ·) (· * ·) left right)
  | .div => if right.getFloat = 0 then none else some (.floats (left.getFloat / right.getFloat))

/-- The negative of a number, wrapped around. -/
def Number.exactNeg : Number → Number
  | ints v => .ints (Int32.ofInt (-v.toInt))
  | floats v => .floats (-v)

def Operand.sql : Operand → Option Number
  | ints v => v.map .ints
  | floats v => v.map .floats

namespace ArithmeticExpr

/-- The value of the expression in SQL: `none` is NULL. -/
def sql : ArithmeticExpr → Option Number
  | operand o => o.sql
  | negative left => left.sql.map Number.exactNeg
  | arithmetic op left right =>
    match left.sql, right.sql with
    | some a, some b => op.exact a b
    | _, _ => none

/-- The value is NULL exactly if it should be, and else it is the number it should be. -/
def Correct (e : ArithmeticExpr) : Prop :=
  (e.getValue.isNull = true ↔ e.sql = none) ∧ ∀ v, e.sql = some v → e.getValue = v

/-- The expression and all expressions in it. -/
def subexprs : ArithmeticExpr → List ArithmeticExpr
  | operand o => [operand o]
  | negative left => negative left :: left.subexprs
  | arithmetic op left right => arithmetic op left right :: (left.subexprs ++ right.subexprs)

/-! ## The condition -/

/-- The number that stands for the value. -/
def standsFor (e : ArithmeticExpr) : Number := e.sql.getD e.valueType.null

end ArithmeticExpr

/-- The operator does not divide by zero, but its result is the number that stands for NULL, or its
    divisor is so small that it counts as zero. -/
def ArithmeticType.Hits (op : ArithmeticType) (left right : Number) : Prop :=
  ∃ v, op.exact left right = some v ∧
    (v.isNull = true ∨ op = .div ∧ -epsilon < right.getFloat ∧ right.getFloat < epsilon)

namespace ArithmeticExpr

/-- No operand is the number that stands for NULL, and each operator ends at this number exactly if one
    of its operands is NULL. -/
def Good : ArithmeticExpr → Prop
  | operand o => ∀ v, o.sql = some v → v.isNull = false
  | negative left => left.Good ∧ (left.standsFor.exactNeg.isNull = true ↔ left.sql = none)
  | arithmetic op left right => left.Good ∧ right.Good ∧
      if left.sql = none ∨ right.sql = none then
        op.exact left.standsFor right.standsFor = none ∨ op.Hits left.standsFor right.standsFor
      else ¬ op.Hits left.standsFor right.standsFor

end ArithmeticExpr

/-! ## The operators -/

section Operators

variable {op : ArithmeticType} {a b v : Number}

theorem NumberType.isNull_null (t : NumberType) : t.null.isNull = true := by
  cases t <;> simp [null, Number.isNull]

/-- A value of the type is NULL if it is the number that stands for it. -/
theorem Number.isNull_iff : v.isNull = true ↔ v = v.type.null := by
  cases v <;> simp [isNull, type, NumberType.null]

/-- The type of the result is the type of the value. -/
theorem type_calcValue (op : ArithmeticType) (a b : Number) :
    (calcValue op (op.valueType a.type b.type) a b).type = op.valueType a.type b.type := by
  unfold ArithmeticType.valueType
  split
  · rename_i h
    cases op with
    | add => rfl
    | sub => rfl
    | mul => rfl
    | div => exact absurd rfl h.2.2
  · cases op with
    | add => rfl
    | sub => rfl
    | mul => rfl
    | div =>
      show (FloatType.divide a b).type = .floats
      unfold FloatType.divide
      split <;> rfl

/-- Two integers are combined as such, and everything else as floats. -/
theorem combine_eq {f : Int → Int → Int} {k : Int32 → Int32 → Int32} {g : ℚ → ℚ → ℚ}
    (hf : ∀ x y : Int32, Int32.ofInt (f x.toInt y.toInt) = k x y) (a b : Number) :
    Number.combine f g a b = if a.type = .ints ∧ b.type = .ints then .ints (k a.getInt b.getInt)
      else .floats (g a.getFloat b.getFloat) := by
  cases a with
  | ints x =>
    cases b with
    | ints y => exact congrArg Number.ints (hf x y)
    | floats y => rfl
  | floats x => cases b <;> rfl

theorem valueType_of_ne (hop : op ≠ .div) (left right : NumberType) :
    op.valueType left right = if left = .ints ∧ right = .ints then .ints else .floats := by
  simp [ArithmeticType.valueType, hop]

theorem calcValue_div (a b : Number) :
    calcValue .div (ArithmeticType.div.valueType a.type b.type) a b = FloatType.divide a b := by
  have htype : ArithmeticType.div.valueType a.type b.type = .floats := if_neg fun h => h.2.2 rfl
  rw [htype]
  rfl

/-- All operators but the division are exact. -/
theorem exact_eq_calcValue (hop : op ≠ .div) (a b : Number) :
    op.exact a b = some (calcValue op (op.valueType a.type b.type) a b) := by
  rw [valueType_of_ne hop]
  cases op with
  | add =>
    rw [ArithmeticType.exact, combine_eq (k := (· + ·)) fun x y => by simp]
    split <;> rfl
  | sub =>
    rw [ArithmeticType.exact, combine_eq (k := (· - ·)) fun x y => by simp]
    split <;> rfl
  | mul =>
    rw [ArithmeticType.exact, combine_eq (k := (· * ·)) fun x y => by simp]
    split <;> rfl
  | div => exact absurd rfl hop

/-- The result is NULL if the operator divides by zero or hits NULL. -/
theorem isNull_calcValue (op : ArithmeticType) (a b : Number) :
    (calcValue op (op.valueType a.type b.type) a b).isNull = true ↔ op.exact a b = none ∨ op.Hits a b := by
  unfold ArithmeticType.Hits
  by_cases hop : op = .div
  · subst hop
    rw [calcValue_div]
    unfold FloatType.divide ArithmeticType.exact
    have heps : (0 : ℚ) < epsilon := by
      unfold epsilon
      norm_num
    by_cases hzero : b.getFloat = 0
    · rw [if_pos ⟨by linarith, by linarith⟩, if_pos hzero]
      simp [Number.isNull]
    · rw [if_neg hzero]
      by_cases hsmall : b.getFloat > -epsilon ∧ b.getFloat < epsilon
      · rw [if_pos hsmall]
        simp [Number.isNull, hsmall]
      · rw [if_neg hsmall]
        simp [hsmall]
  · rw [exact_eq_calcValue hop]
    simp [hop]

/-- If it is not, it is the exact result. -/
theorem calcValue_eq (hexact : op.exact a b = some v) (hhits : ¬ op.Hits a b) :
    calcValue op (op.valueType a.type b.type) a b = v := by
  by_cases hop : op = .div
  · subst hop
    unfold ArithmeticType.exact at hexact
    dsimp only at hexact
    split at hexact
    · cases hexact
    · rename_i hzero
      have hbig : ¬ (b.getFloat > -epsilon ∧ b.getFloat < epsilon) := by
        intro hsmall
        exact hhits ⟨.floats (a.getFloat / b.getFloat), if_neg hzero, Or.inr ⟨rfl, hsmall.1, hsmall.2⟩⟩
      rw [calcValue_div, FloatType.divide, if_neg hbig]
      exact Option.some.inj hexact
  · exact Option.some.inj ((exact_eq_calcValue hop a b).symm.trans hexact)

theorem negative_eq (a : Number) : a.type.negative a = a.exactNeg := by
  cases a with
  | ints x => exact congrArg Number.ints (by simp [Number.getInt])
  | floats x => rfl

theorem type_exactNeg (a : Number) : a.exactNeg.type = a.type := by
  cases a <;> rfl

end Operators

/-! ## Expressions -/

namespace ArithmeticExpr

variable {e left right : ArithmeticExpr} {op : ArithmeticType} {v : Number}

/-- The type of the result is known before the row is. -/
theorem type_getValue (e : ArithmeticExpr) : e.getValue.type = e.valueType := by
  induction e with
  | operand o => cases o <;> rfl
  | negative left ih =>
    show (left.getValue.type.negative left.getValue).type = left.valueType
    rw [negative_eq, type_exactNeg, ih]
  | arithmetic op left right ihl ihr =>
    show (calcValue op (op.valueType left.valueType right.valueType) left.getValue right.getValue).type =
      op.valueType left.valueType right.valueType
    rw [← ihl, ← ihr, type_calcValue]

theorem mem_subexprs_self (e : ArithmeticExpr) : e ∈ e.subexprs := by
  cases e <;> exact List.mem_cons_self

theorem sql_arithmetic (op : ArithmeticType) (left right : ArithmeticExpr) :
    (arithmetic op left right).sql = left.sql.bind fun a => right.sql.bind fun b => op.exact a b := by
  rw [sql]
  cases left.sql with
  | none => rfl
  | some a => cases right.sql <;> rfl

/-- A correct value is the number that stands for what it should be. -/
theorem Correct.getValue_eq (h : e.Correct) : e.getValue = e.standsFor := by
  obtain ⟨hnull, hsome⟩ := h
  unfold standsFor
  cases hsql : e.sql with
  | none =>
    have heq := Number.isNull_iff.mp (hnull.mpr hsql)
    rw [heq, e.type_getValue]
    rfl
  | some v => exact hsome v hsql

/-- An operand is right unless it is the number that stands for NULL. -/
theorem operand_correct_iff (o : Operand) : (operand o).Correct ↔ (operand o).Good := by
  have hvalue : ∀ v, o.sql = some v → o.value = v := by
    intro v hv
    cases o with
    | ints w =>
      obtain ⟨x, rfl, rfl⟩ := Option.map_eq_some_iff.mp hv
      rfl
    | floats w =>
      obtain ⟨x, rfl, rfl⟩ := Option.map_eq_some_iff.mp hv
      rfl
  have hnone : o.sql = none → o.value.isNull = true := by
    intro hsql
    cases o with
    | ints w =>
      obtain rfl := Option.map_eq_none_iff.mp hsql
      rfl
    | floats w =>
      obtain rfl := Option.map_eq_none_iff.mp hsql
      exact NumberType.isNull_null .floats
  constructor
  · rintro ⟨hnull, -⟩ v hv
    by_contra hne
    have hsql : o.sql = none := hnull.mp (by
      show o.value.isNull = true
      rw [hvalue v hv]
      simpa using hne)
    cases hsql.symm.trans hv
  · intro hgood
    refine ⟨⟨fun hnull => ?_, hnone⟩, hvalue⟩
    show o.sql = none
    cases hsql : o.sql with
    | none => rfl
    | some v =>
      have hv := hgood v hsql
      have hnull' : o.value.isNull = true := hnull
      rw [hvalue v hsql, hv] at hnull'
      cases hnull'

/-- The negative of a NULL has to be NULL again. -/
theorem negative_correct_iff (h : left.Correct) :
    (negative left).Correct ↔ (left.standsFor.exactNeg.isNull = true ↔ left.sql = none) := by
  have hvalue : (negative left).getValue = left.standsFor.exactNeg := by
    show left.getValue.type.negative left.getValue = _
    rw [negative_eq, h.getValue_eq]
  have hsql : (negative left).sql = left.sql.map Number.exactNeg := rfl
  unfold Correct
  rw [hvalue, hsql, Option.map_eq_none_iff]
  refine and_iff_left fun v hv => ?_
  obtain ⟨a, ha, rfl⟩ := Option.map_eq_some_iff.mp hv
  rw [standsFor, ha]
  rfl

theorem getValue_arithmetic (hl : left.Correct) (hr : right.Correct) :
    (arithmetic op left right).getValue =
      calcValue op (op.valueType left.standsFor.type right.standsFor.type) left.standsFor
        right.standsFor := by
  rw [← hl.getValue_eq, ← hr.getValue_eq, left.type_getValue, right.type_getValue]
  rfl

/-- NULL has to come out exactly where it goes in. -/
theorem arithmetic_correct_iff (hl : left.Correct) (hr : right.Correct) :
    (arithmetic op left right).Correct ↔
      if left.sql = none ∨ right.sql = none then
        op.exact left.standsFor right.standsFor = none ∨ op.Hits left.standsFor right.standsFor
      else ¬ op.Hits left.standsFor right.standsFor := by
  unfold Correct
  rw [getValue_arithmetic hl hr, isNull_calcValue]
  by_cases hnull : left.sql = none ∨ right.sql = none
  · -- the value should be NULL
    have hsql : (arithmetic op left right).sql = none := by
      rw [sql_arithmetic]
      rcases hnull with hnone | hnone
      · rw [hnone]
        rfl
      · rw [hnone]
        cases left.sql <;> rfl
    rw [if_pos hnull, hsql]
    simp
  · rw [if_neg hnull]
    obtain ⟨hleft, hright⟩ := not_or.mp hnull
    obtain ⟨a, ha⟩ := Option.ne_none_iff_exists'.mp hleft
    obtain ⟨b, hb⟩ := Option.ne_none_iff_exists'.mp hright
    have hsql : (arithmetic op left right).sql = op.exact a b := by
      rw [sql_arithmetic, ha, hb]
      rfl
    rw [hsql, standsFor, standsFor, ha, hb, Option.getD_some, Option.getD_some]
    constructor
    · rintro ⟨hiff, -⟩ hhits
      have hnone := hiff.mp (Or.inr hhits)
      obtain ⟨v, hv, -⟩ := hhits
      cases hnone.symm.trans hv
    · intro hhits
      exact ⟨⟨fun h => h.resolve_right hhits, Or.inl⟩, fun v hv => calcValue_eq hv hhits⟩

/-- **NULL.**  The values of an expression and of all expressions in it are NULL exactly where they
    should be, and else the numbers they should be, if and only if no operand is the number that stands
    for NULL and each operator ends at this number exactly if an operand of it is NULL. -/
theorem null_propagates_iff (e : ArithmeticExpr) : (∀ s ∈ e.subexprs, s.Correct) ↔ e.Good := by
  induction e with
  | operand o =>
    rw [← operand_correct_iff]
    exact List.forall_mem_singleton
  | negative left ih =>
    show (∀ s ∈ negative left :: left.subexprs, s.Correct) ↔ left.Good ∧ _
    rw [List.forall_mem_cons, ih, and_comm]
    refine and_congr_right fun hgood => ?_
    exact negative_correct_iff (ih.mpr hgood left left.mem_subexprs_self)
  | arithmetic op left right ihl ihr =>
    show (∀ s ∈ arithmetic op left right :: (left.subexprs ++ right.subexprs), s.Correct) ↔
      left.Good ∧ right.Good ∧ _
    rw [List.forall_mem_cons, List.forall_mem_append, ihl, ihr, and_comm, and_assoc]
    refine and_congr_right fun hl => and_congr_right fun hr => ?_
    exact arithmetic_correct_iff (ihl.mpr hl left left.mem_subexprs_self)
      (ihr.mpr hr right right.mem_subexprs_self)

/-- NULL + 1 is a number. -/
theorem null_plus_one : ¬ ∀ e : ArithmeticExpr, e.Correct := by
  intro h
  obtain ⟨hnull, -⟩ := h (.arithmetic .add (.operand (.ints none)) (.operand (.ints (some 1))))
  exact absurd (hnull.mpr rfl) (by decide)

end ArithmeticExpr
end Miniob.Expr
