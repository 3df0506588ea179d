/-
  Expressions over a chunk (`ArithmeticExpr::get_column` and `ComparisonExpr::eval` in
  src/observer/sql/expr/expression.cpp, the loops in arithmetic_operator.hpp and `Column`).

  1. A column is a type, whether it is constant, and its cells.  The loops take the cells for the type of the
     result: an INT that is read as a FLOAT is another number (`Cell.asFloat`).
  2. `Meets` says at each operator that the operands have the type of the result, and that a divisor does not count
     as zero.  Then the cells are the values of the rows (`getColumn_meets`).
  3. The comparisons of cells know neither NULL nor `EPSILON`; IS and LIKE leave the flags alone; and of two
     constants only the first flag is looked at (`ComparisonMeets`).

  Floats are exact rationals; what comes of infinite ones is left open (`Special`).  Left out: expressions that have
  been given a position in the chunk, and the compilation with SIMD, which is off.
-/
import Miniob.Expr.Arithmetic
import Miniob.Expr.Cast
import Miniob.Expr.Condition

namespace Miniob.Expr.Vectorised

open Miniob.Index
open Miniob.Storage (RC)

/-! ## Columns -/

/-- What four bytes are: an INT, or a FLOAT, which may be no number. -/
inductive Cell where
  | ints (v : Int32)
  | floats (v : Option ℚ)
  deriving DecidableEq

/-- The bytes of a value. -/
def Cell.ofNumber : Number → Cell
  | .ints v => .ints v
  | .floats v => .floats (some v)

/-- The cell through a pointer to `float`. -/
def Cell.asFloat : Cell → Option ℚ
  | ints v => Cast.floatValue v
  | floats v => v

/-- What is undefined, or an assertion. -/
inductive Fault where
  /-- A null expression is asked for its column. -/
  | nullExpression
  /-- A cell is read that has not been written, or a flag that is not there. -/
  | outOfRange
  /-- The bytes of a FLOAT are read as an INT. -/
  | reinterpreted
  /-- An INT is divided by zero. -/
  | divisionByZero
  deriving DecidableEq

/-- `Column`, with the cells that are counted. -/
structure Column where
  type : NumberType
  constant : Bool
  cells : List Cell

namespace Column

def count (c : Column) : Nat := c.cells.length

/-- The cell that the loops take for row `i`. -/
def read (c : Column) (i : Nat) : Except Fault Cell :=
  match c.cells[if c.constant then 0 else i]? with
  | some x => .ok x
  | none => .error .outOfRange

end Column

/-- `Chunk`: columns of the same length. -/
structure Chunk (k : Nat) where
  types : Fin k → NumberType
  rows : Nat
  value : Fin k → Nat → Number
  typed : ∀ c r, (value c r).type = types c

/-- `ArithmeticExpr` and its parts; a `FieldExpr` is a column of the chunk. -/
inductive Expression (k : Nat) where
  | field (c : Fin k)
  | value (v : Number)
  | negative (left : Expression k)
  | arithmetic (op : ArithmeticType) (left right : Expression k)

variable {k : Nat}

namespace Expression

/-- `value_type`. -/
def valueType (types : Fin k → NumberType) : Expression k → NumberType
  | field c => types c
  | value v => v.type
  | negative left => left.valueType types
  | arithmetic op left right => op.valueType (left.valueType types) (right.valueType types)

/-- `get_value` in a row. -/
def getValue (types : Fin k → NumberType) (row : Fin k → Number) : Expression k → Number
  | field c => row c
  | value v => v
  | negative left => (left.getValue types row).type.negative (left.getValue types row)
  | arithmetic op left right =>
    calcValue op (op.valueType (left.valueType types) (right.valueType types)) (left.getValue types row)
      (right.getValue types row)

end Expression

/-! ## The loops -/

/-- What is left open: calculations and comparisons with infinite floats and NaN. -/
structure Special where
  calculate : ArithmeticType → Option ℚ → Option ℚ → Option ℚ
  compare : CompOp → Option ℚ → Option ℚ → Bool

/-- The results for the first `n` rows, unless one of them fails. -/
def collect {α : Type} (f : Nat → Except Fault α) : Nat → Except Fault (List α)
  | 0 => .ok []
  | n + 1 => (collect f n).bind fun xs => (f n).map fun x => xs ++ [x]

/-- `AddOperator` and the others for `int`. -/
def intOperation (op : ArithmeticType) : Cell → Cell → Except Fault Cell
  | .ints l, .ints r =>
    match op with
    | .add => .ok (.ints (l + r))
    | .sub => .ok (.ints (l - r))
    | .mul => .ok (.ints (l * r))
    | .div => if r = 0 then .error .divisionByZero else .ok (.ints (l / r))
  | _, _ => .error .reinterpreted

variable (special : Special)

/-- The same for `float`. -/
def floatOperation (op : ArithmeticType) (left right : Cell) : Cell :=
  match left.asFloat, right.asFloat with
  | some l, some r =>
    match op with
    | .add => .floats (some (l + r))
    | .sub => .floats (some (l - r))
    | .mul => .floats (some (l * r))
    | .div => .floats (if r = 0 then none else some (l / r))
  | l, r => .floats (special.calculate op l r)

/-- `execute_calc` with `binary_operator`: a cell of the result. -/
def executeCalc (op : ArithmeticType) (attrType : NumberType) (left right : Column) (i : Nat) : Except Fault Cell :=
  (left.read i).bind fun l =>
    (right.read i).bind fun r =>
      match attrType with
      | .ints => intOperation op l r
      | .floats => .ok (floatOperation special op l r)

/-- `calc_column`. -/
def calcColumn (op : ArithmeticType) (targetType : NumberType) (left right : Column) : Except Fault Column :=
  (collect (executeCalc special op targetType left right) (max left.count right.count)).map fun cells =>
    ⟨targetType, left.constant && right.constant, cells⟩

/-- `get_column`. -/
def getColumn (chunk : Chunk k) : Expression k → Except Fault Column
  | .field c => .ok ⟨chunk.types c, false, (List.range chunk.rows).map fun r => .ofNumber (chunk.value c r)⟩
  | .value v => .ok ⟨v.type, true, [.ofNumber v]⟩
  -- the right side is null
  | .negative left => (getColumn chunk left).bind fun _ => .error .nullExpression
  | .arithmetic op left right =>
    (getColumn chunk left).bind fun l =>
      (getColumn chunk right).bind fun r =>
        calcColumn special op (op.valueType (left.valueType chunk.types) (right.valueType chunk.types)) l r

/-! ## Comparisons -/

/-- `Equal` and the others; nothing for the other operators. -/
def operation {α : Type} [LinearOrder α] (comp : CompOp) (l r : α) : Option Bool :=
  match comp with
  | .equalTo => some (decide (l = r))
  | .notEqual => some (decide (l ≠ r))
  | .lessEqual => some (decide (l ≤ r))
  | .lessThan => some (decide (l < r))
  | .greatEqual => some (decide (r ≤ l))
  | .greatThan => some (decide (r < l))
  | _ => none

/-- `compare_result` has a loop for the operator. -/
def hasLoop : CompOp → Bool
  | .is | .notIs | .like | .notLike => false
  | _ => true

/-- What the loop computes for two cells. -/
def compareCells (comp : CompOp) (type : NumberType) (left right : Cell) : Except Fault Bool :=
  match type with
  | .ints =>
    match left, right with
    | .ints l, .ints r => .ok ((operation comp l.toInt r.toInt).getD false)
    | _, _ => .error .reinterpreted
  | .floats =>
    match left.asFloat, right.asFloat with
    | some l, some r => .ok ((operation comp l r).getD false)
    | l, r => .ok (special.compare comp l r)

/-- The verdicts of the loop go into the flags. -/
def andFlags (select verdicts : List Bool) : Except Fault (List Bool) :=
  if verdicts.length ≤ select.length then
    .ok (List.zipWith (· && ·) select verdicts ++ select.drop verdicts.length)
  else .error .outOfRange

/-- `compare_column`. -/
def compareColumn (comp : CompOp) (left right : Column) (select : List Bool) : Except Fault (List Bool) :=
  if hasLoop comp then
    (collect (fun i => (left.read i).bind fun l => (right.read i).bind fun r =>
        compareCells special comp left.type l r)
      (if left.constant && !right.constant then right.count else left.count)).bind (andFlags select)
  else .ok select

/-- `ComparisonExpr::eval`. -/
def eval (chunk : Chunk k) (comp : CompOp) (left right : Expression k) (select : List Bool) :
    Except Fault (Except RC (List Bool)) :=
  (getColumn special chunk left).bind fun l =>
    (getColumn special chunk right).bind fun r =>
      if l.type ≠ r.type then .ok (.error .internal)
      else (compareColumn special comp l r select).map .ok

/-- `IntegerType::compare` and `FloatType::compare`. -/
def Number.compare (left right : Number) : Int :=
  if left.isNull then -1
  else if right.isNull then 1
  else
    match left, right with
    | .ints l, .ints r => compareInt l r
    | l, r => compareFloat l.getFloat r.getFloat

/-- `ComparisonExpr::compare_value`; `like` is `match_str` of the texts. -/
def compareValue (like : Number → Number → Bool) (comp : CompOp) (left right : Number) : Bool :=
  let cmpResult := Number.compare left right
  let hasNull := left.isNull || right.isNull
  match comp with
  | .equalTo => decide (cmpResult = 0) && !hasNull
  | .lessEqual => decide (cmpResult ≤ 0) && !hasNull
  | .notEqual => decide (cmpResult ≠ 0) && !hasNull
  | .lessThan => decide (cmpResult < 0) && !hasNull
  | .greatEqual => decide (cmpResult ≥ 0) && !hasNull
  | .greatThan => decide (cmpResult > 0) && !hasNull
  | .is => left.isNull && right.isNull
  | .notIs => !(left.isNull && right.isNull)
  | .like => like right left && !hasNull
  | .notLike => !like right left && !hasNull

/-! ## The condition -/

namespace Chunk

/-- A row of the chunk. -/
def row (chunk : Chunk k) (r : Nat) (c : Fin k) : Number := chunk.value c r

end Chunk

namespace Expression

/-- The value in a row of the chunk. -/
def valueAt (chunk : Chunk k) (r : Nat) (e : Expression k) : Number := e.getValue chunk.types (chunk.row r)

/-- No column occurs. -/
def isConstant : Expression k → Bool
  | field _ => false
  | value _ => true
  | negative left => left.isConstant
  | arithmetic _ left right => left.isConstant && right.isConstant

/-- The two operands of each operator have the same type, a division is one of FLOATs, and its divisor does not count
    as zero. -/
def Meets (chunk : Chunk k) (r : Nat) : Expression k → Prop
  | field _ => True
  | value _ => True
  | negative left => left.Meets chunk r
  | arithmetic op left right =>
    left.Meets chunk r ∧ right.Meets chunk r ∧ left.valueType chunk.types = right.valueType chunk.types ∧
      (op = .div → left.valueType chunk.types = .floats ∧
        ¬ ((right.valueAt chunk r).getFloat > -epsilon ∧ (right.valueAt chunk r).getFloat < epsilon))

end Expression

/-- The comparison is one of order, no side is NULL, FLOATs that differ do so by more than `EPSILON`, and two constants
    are compared for one row only. -/
structure ComparisonMeets (chunk : Chunk k) (comp : CompOp) (left right : Expression k) (r : Nat) : Prop where
  meetsLeft : left.Meets chunk r
  meetsRight : right.Meets chunk r
  /-- The loop has a case for the comparison. -/
  loop : hasLoop comp = true
  /-- No side is NULL. -/
  leftNull : (left.valueAt chunk r).isNull = false
  rightNull : (right.valueAt chunk r).isNull = false
  /-- FLOATs are equal, or further apart than `EPSILON`. -/
  apart : left.valueType chunk.types = .floats →
    (left.valueAt chunk r).getFloat = (right.valueAt chunk r).getFloat ∨
      (left.valueAt chunk r).getFloat - (right.valueAt chunk r).getFloat > epsilon ∨
      (left.valueAt chunk r).getFloat - (right.valueAt chunk r).getFloat < -epsilon
  /-- Two constants are compared for one row only. -/
  constants : left.isConstant = true → right.isConstant = true → chunk.rows ≤ 1

/-! ## Values and cells -/

section Cells

variable {special : Special} {op : ArithmeticType} {a b : Number} {chunk : Chunk k} {e : Expression k} {col : Column}

theorem NumberType.type_negative (t : NumberType) (v : Number) : (t.negative v).type = t := by
  cases t <;> rfl

/-- The type of a value does not depend on the row. -/
theorem type_getValue (types : Fin k → NumberType) (row : Fin k → Number) (hrow : ∀ c, (row c).type = types c)
    (e : Expression k) : (e.getValue types row).type = e.valueType types := by
  induction e with
  | field c => exact hrow c
  | value v => rfl
  | negative left ih =>
    rw [Expression.getValue, NumberType.type_negative, ih]
    rfl
  | arithmetic op left right ihl ihr =>
    rw [Expression.getValue, Expression.valueType, ← ihl, ← ihr, type_calcValue]

theorem type_valueAt (chunk : Chunk k) (r : Nat) (e : Expression k) :
    (e.valueAt chunk r).type = e.valueType chunk.types :=
  type_getValue _ _ (fun c => chunk.typed c r) e

/-- On INTs the loop does what the row does. -/
theorem intOperation_eq (ha : a.type = .ints) (hb : b.type = .ints) (hop : op ≠ .div) :
    intOperation op (.ofNumber a) (.ofNumber b) = .ok (.ofNumber (calcValue op .ints a b)) := by
  cases a with
  | floats x => cases ha
  | ints x =>
    cases b with
    | floats y => cases hb
    | ints y =>
      cases op with
      | div => exact absurd rfl hop
      | _ => rfl

/-- On FLOATs it does so unless it divides by what counts as zero. -/
theorem floatOperation_eq (ha : a.type = .floats) (hb : b.type = .floats)
    (hop : op = .div → ¬ (b.getFloat > -epsilon ∧ b.getFloat < epsilon)) :
    floatOperation special op (.ofNumber a) (.ofNumber b) = .ofNumber (calcValue op .floats a b) := by
  cases a with
  | ints x => cases ha
  | floats x =>
    cases b with
    | ints y => cases hb
    | floats y =>
      cases op with
      | div =>
        have hsmall := hop rfl
        have hzero : y ≠ 0 := by
          rintro rfl
          refine hsmall ⟨?_, ?_⟩ <;> simp [Number.getFloat, epsilon]
        show Cell.floats (if y = 0 then none else some (x / y)) = .ofNumber (FloatType.divide (.floats x) (.floats y))
        unfold FloatType.divide
        rw [if_neg hzero, if_neg hsmall]
        rfl
      | _ => rfl

end Cells

/-! ## Arithmetic over the chunk -/

section Columns

variable {special : Special} {chunk : Chunk k} {e : Expression k} {col : Column}

/-- A loop that gets through has a result for each row. -/
theorem collect_ok {α : Type} {f : Nat → Except Fault α} {n : Nat} {xs : List α} (h : collect f n = .ok xs) :
    xs.length = n ∧ ∀ i, i < n → ∃ x, f i = .ok x ∧ xs[i]? = some x := by
  induction n generalizing xs with
  | zero =>
    cases h
    exact ⟨rfl, fun i hi => absurd hi (Nat.not_lt_zero i)⟩
  | succ n ih =>
    rw [collect] at h
    cases hrest : collect f n with
    | error e =>
      rw [hrest] at h
      cases h
    | ok ys =>
      rw [hrest] at h
      dsimp only [Except.bind] at h
      cases hn : f n with
      | error e =>
        rw [hn] at h
        cases h
      | ok x =>
        rw [hn] at h
        cases h
        obtain ⟨hlen, hall⟩ := ih hrest
        refine ⟨by rw [List.length_append, hlen]; rfl, fun i hi => ?_⟩
        rcases Nat.lt_succ_iff_lt_or_eq.mp hi with hi | rfl
        · obtain ⟨y, hy, hget⟩ := hall i hi
          exact ⟨y, hy, by rw [List.getElem?_append_left (by omega), hget]⟩
        · exact ⟨x, hn, by rw [List.getElem?_append_right (by omega), hlen, Nat.sub_self]; rfl⟩

/-- What a column looks like, if the chunk has a row. -/
structure Shape (chunk : Chunk k) (e : Expression k) (col : Column) : Prop where
  type : col.type = e.valueType chunk.types
  constant : col.constant = e.isConstant
  count : col.count = if e.isConstant = true then 1 else chunk.rows

/-- A column of an operator comes from those of its operands. -/
theorem getColumn_arithmetic {op : ArithmeticType} {left right : Expression k}
    (h : getColumn special chunk (.arithmetic op left right) = .ok col) : ∃ l r cells,
      getColumn special chunk left = .ok l ∧ getColumn special chunk right = .ok r ∧
      collect (executeCalc special op (op.valueType (left.valueType chunk.types) (right.valueType chunk.types)) l r)
        (max l.count r.count) = .ok cells ∧
      col = ⟨op.valueType (left.valueType chunk.types) (right.valueType chunk.types), l.constant && r.constant,
        cells⟩ := by
  rw [getColumn] at h
  cases hl : getColumn special chunk left with
  | error e =>
    rw [hl] at h
    cases h
  | ok l =>
    rw [hl] at h
    dsimp only [Except.bind] at h
    cases hr : getColumn special chunk right with
    | error e =>
      rw [hr] at h
      cases h
    | ok r =>
      rw [hr] at h
      dsimp only at h
      unfold calcColumn at h
      cases hcells : collect (executeCalc special op
          (op.valueType (left.valueType chunk.types) (right.valueType chunk.types)) l r) (max l.count r.count) with
      | error e =>
        rw [hcells] at h
        cases h
      | ok cells =>
        rw [hcells] at h
        cases h
        exact ⟨l, r, cells, rfl, rfl, hcells, rfl⟩

/-- A column has one cell, or one for each row. -/
theorem getColumn_shape (hrows : 0 < chunk.rows) (h : getColumn special chunk e = .ok col) : Shape chunk e col := by
  induction e generalizing col with
  | field c =>
    cases h
    exact ⟨rfl, rfl, by rw [Column.count, List.length_map, List.length_range]; rfl⟩
  | value v =>
    cases h
    exact ⟨rfl, rfl, rfl⟩
  | negative left _ =>
    rw [getColumn] at h
    cases hl : getColumn special chunk left with
    | error e =>
      rw [hl] at h
      cases h
    | ok l =>
      rw [hl] at h
      cases h
  | arithmetic op left right ihl ihr =>
    obtain ⟨l, r, cells, hl, hr, hcells, rfl⟩ := getColumn_arithmetic h
    have hleft := ihl hl
    have hright := ihr hr
    refine ⟨rfl, ?_, ?_⟩
    · show (l.constant && r.constant) = _
      rw [hleft.constant, hright.constant]
      rfl
    · show cells.length = _
      rw [(collect_ok hcells).1, hleft.count, hright.count]
      show _ = if (left.isConstant && right.isConstant) = true then 1 else chunk.rows
      cases left.isConstant <;> cases right.isConstant <;> simp <;> omega

/-- A constant column gives the same cell for every row. -/
theorem read_constant {c : Column} (h : c.constant = true) (i j : Nat) : c.read i = c.read j := by
  unfold Column.read
  rw [h]
  rfl

/-- Where the operators meet the condition, the cell is the value of the row. -/
theorem getColumn_meets (h : getColumn special chunk e = .ok col) {r : Nat} (hr : r < chunk.rows)
    (hmeets : e.Meets chunk r) : col.read r = .ok (.ofNumber (e.valueAt chunk r)) := by
  have hrows : 0 < chunk.rows := by omega
  induction e generalizing col with
  | field c =>
    cases h
    unfold Column.read
    simp [hr]
    rfl
  | value v =>
    cases h
    rfl
  | negative left _ =>
    rw [getColumn] at h
    cases hl : getColumn special chunk left with
    | error e =>
      rw [hl] at h
      cases h
    | ok l =>
      rw [hl] at h
      cases h
  | arithmetic op left right ihl ihr =>
    obtain ⟨hmeetsl, hmeetsr, htype, hdiv⟩ := hmeets
    obtain ⟨l, rcol, cells, hl, hright, hcells, rfl⟩ := getColumn_arithmetic h
    have hshape := getColumn_shape hrows h
    have hreadl := ihl hl hmeetsl
    have hreadr := ihr hright hmeetsr
    -- the cell that is read has been computed from the cells of the row
    have hcell : ∃ x, executeCalc special op
          (op.valueType (left.valueType chunk.types) (right.valueType chunk.types)) l rcol r = .ok x ∧
        Column.read ⟨op.valueType (left.valueType chunk.types) (right.valueType chunk.types),
          l.constant && rcol.constant, cells⟩ r = .ok x := by
      obtain ⟨hlen, hall⟩ := collect_ok hcells
      have hcount := hshape.count
      have hcountl := (getColumn_shape hrows hl).count
      have hcountr := (getColumn_shape hrows hright).count
      have hconst := hshape.constant
      unfold Column.count at hcount
      cases hboth : l.constant && rcol.constant with
      | true =>
        obtain ⟨x, hx, hget⟩ := hall 0 (by rw [← hlen, hcount]; split <;> omega)
        obtain ⟨hcl, hcr⟩ := Bool.and_eq_true_iff.mp hboth
        refine ⟨x, ?_, ?_⟩
        · unfold executeCalc at hx ⊢
          rw [read_constant hcl r 0, read_constant hcr r 0]
          exact hx
        · unfold Column.read
          rw [if_pos rfl, hget]
      | false =>
        have hnot : (Expression.arithmetic op left right).isConstant = false := hconst.symm.trans hboth
        rw [hnot, if_neg Bool.false_ne_true] at hcount
        dsimp only at hcount
        obtain ⟨x, hx, hget⟩ := hall r (by omega)
        refine ⟨x, hx, ?_⟩
        unfold Column.read
        rw [if_neg Bool.false_ne_true, hget]
    obtain ⟨x, hx, hread⟩ := hcell
    rw [hread]
    unfold executeCalc at hx
    rw [hreadl, hreadr] at hx
    dsimp only [Except.bind] at hx
    have hta := type_valueAt chunk r left
    have htb := type_valueAt chunk r right
    show Except.ok x = .ok (.ofNumber (calcValue op (op.valueType (left.valueType chunk.types)
      (right.valueType chunk.types)) (left.valueAt chunk r) (right.valueAt chunk r)))
    rw [← htype] at hx htb ⊢
    cases hleft : left.valueType chunk.types with
    | ints =>
      have hop : op ≠ .div := by
        rintro rfl
        cases hleft.symm.trans (hdiv rfl).1
      have htarget : op.valueType .ints .ints = .ints := if_pos ⟨rfl, rfl, hop⟩
      rw [hleft] at hx hta htb
      rw [htarget] at hx ⊢
      exact hx.symm.trans (intOperation_eq hta htb hop)
    | floats =>
      have htarget : op.valueType .floats .floats = .floats := if_neg fun h => NumberType.noConfusion h.1
      rw [hleft] at hx hta htb
      rw [htarget] at hx ⊢
      exact hx.symm.trans (congrArg Except.ok (floatOperation_eq hta htb fun h => (hdiv h).2))

end Columns

/-! ## Comparisons over the chunk -/

section Comparisons

variable {special : Special} {chunk : Chunk k} {comp : CompOp} {left right : Expression k} {a b : Number}
  {select select' verdicts : List Bool}

/-- An order and the number that stands for it. -/
theorem operation_eq {α : Type} [LinearOrder α] {l r : α} {z : Int} (hloop : hasLoop comp = true)
    (hlt : z < 0 ↔ l < r) (heq : z = 0 ↔ l = r) (like : Number → Number → Bool) (hz : Number.compare a b = z)
    (ha : a.isNull = false) (hb : b.isNull = false) :
    (operation comp l r).getD false = compareValue like comp a b := by
  have hgt : z > 0 ↔ r < l := by
    constructor
    · intro h
      rcases lt_trichotomy l r with h' | h' | h'
      · have := hlt.mpr h'
        omega
      · have := heq.mpr h'
        omega
      · exact h'
    · intro h
      have hne : z ≠ 0 := fun h' => (heq.mp h' ▸ h).ne rfl
      have hnlt : ¬ z < 0 := fun h' => lt_asymm h (hlt.mp h')
      omega
  have hle : z ≤ 0 ↔ l ≤ r := not_lt.symm.trans ((not_congr hgt).trans not_lt)
  have hge : z ≥ 0 ↔ r ≤ l := not_lt.symm.trans ((not_congr hlt).trans not_lt)
  unfold compareValue
  rw [hz, ha, hb]
  cases comp with
  | equalTo => simp only [operation, heq, Option.getD_some, Bool.or_false, Bool.not_false, Bool.and_true]
  | notEqual => simp only [operation, ne_eq, heq, Option.getD_some, Bool.or_false, Bool.not_false, Bool.and_true]
  | lessEqual => simp only [operation, hle, Option.getD_some, Bool.or_false, Bool.not_false, Bool.and_true]
  | lessThan => simp only [operation, hlt, Option.getD_some, Bool.or_false, Bool.not_false, Bool.and_true]
  | greatEqual => simp only [operation, hge, Option.getD_some, Bool.or_false, Bool.not_false, Bool.and_true]
  | greatThan => simp only [operation, hgt, Option.getD_some, Bool.or_false, Bool.not_false, Bool.and_true]
  | _ => cases hloop

theorem compare_ints {x y : Int32} (ha : (Number.ints x).isNull = false) (hb : (Number.ints y).isNull = false) :
    Number.compare (.ints x) (.ints y) = compareInt x y := by
  unfold Number.compare
  rw [ha, hb, if_neg Bool.false_ne_true, if_neg Bool.false_ne_true]

theorem compare_floats {x y : ℚ} (ha : (Number.floats x).isNull = false)
    (hb : (Number.floats y).isNull = false) : Number.compare (.floats x) (.floats y) = compareFloat x y := by
  unfold Number.compare
  rw [ha, hb, if_neg Bool.false_ne_true, if_neg Bool.false_ne_true]
  rfl

/-- Integers are compared as they are row by row. -/
theorem compareCells_ints {x y : Int32} (hloop : hasLoop comp = true) (like : Number → Number → Bool)
    (ha : (Number.ints x).isNull = false) (hb : (Number.ints y).isNull = false) :
    compareCells special comp .ints (.ints x) (.ints y) = .ok (compareValue like comp (.ints x) (.ints y)) := by
  have hzero : Common.linearCmp x.toInt y.toInt = 0 ↔ x.toInt = y.toInt := by
    have hneg := @Common.linearCmp_neg _ _ x.toInt y.toInt
    have hpos := @Common.linearCmp_pos _ _ x.toInt y.toInt
    omega
  have hz := compare_ints ha hb
  rw [compareInt_eq] at hz
  exact congrArg Except.ok (operation_eq hloop Common.linearCmp_neg hzero like hz ha hb)

/-- So are floats that are equal, or not too close. -/
theorem compareCells_floats {x y : ℚ} (hloop : hasLoop comp = true) (like : Number → Number → Bool)
    (ha : (Number.floats x).isNull = false) (hb : (Number.floats y).isNull = false)
    (hapart : x = y ∨ x - y > epsilon ∨ x - y < -epsilon) :
    compareCells special comp .floats (.floats (some x)) (.floats (some y)) =
      .ok (compareValue like comp (.floats x) (.floats y)) := by
  have heps := epsilon_nonneg
  have hlt : compareFloat x y < 0 ↔ x < y := by
    unfold compareFloat
    rw [Common.toleranceCmp_neg heps]
    constructor
    · intro h
      linarith
    · intro h
      rcases hapart with rfl | h' | h' <;> linarith
  have heq : compareFloat x y = 0 ↔ x = y := by
    unfold compareFloat
    rw [Common.toleranceCmp_eq_zero heps]
    constructor
    · rintro ⟨h, h'⟩
      rcases hapart with rfl | h'' | h''
      · rfl
      · linarith
      · linarith
    · rintro rfl
      exact ⟨by linarith, by linarith⟩
  exact congrArg Except.ok (operation_eq hloop hlt heq like (compare_floats ha hb) ha hb)

/-- Where the condition is met the loop decides like the row. -/
theorem compareCells_eq (hloop : hasLoop comp = true) (like : Number → Number → Bool) {t : NumberType}
    (hta : a.type = t) (htb : b.type = t) (ha : a.isNull = false) (hb : b.isNull = false)
    (hapart : t = .floats → a.getFloat = b.getFloat ∨ a.getFloat - b.getFloat > epsilon ∨
      a.getFloat - b.getFloat < -epsilon) :
    compareCells special comp t (.ofNumber a) (.ofNumber b) = .ok (compareValue like comp a b) := by
  cases a with
  | ints x =>
    cases b with
    | floats y => cases hta.trans htb.symm
    | ints y =>
      cases hta
      exact compareCells_ints hloop like ha hb
  | floats x =>
    cases b with
    | ints y => cases hta.trans htb.symm
    | floats y =>
      cases hta
      exact compareCells_floats hloop like ha hb (hapart rfl)

/-- What a success of `eval` has gone through. -/
theorem eval_ok (h : eval special chunk comp left right select = .ok (.ok select')) (hloop : hasLoop comp = true) :
    ∃ l r verdicts, getColumn special chunk left = .ok l ∧ getColumn special chunk right = .ok r ∧ l.type = r.type ∧
      collect (fun i => (l.read i).bind fun x => (r.read i).bind fun y => compareCells special comp l.type x y)
        (if l.constant && !r.constant then r.count else l.count) = .ok verdicts ∧
      andFlags select verdicts = .ok select' := by
  unfold eval at h
  cases hl : getColumn special chunk left with
  | error e =>
    rw [hl] at h
    cases h
  | ok l =>
    rw [hl] at h
    dsimp only [Except.bind] at h
    cases hr : getColumn special chunk right with
    | error e =>
      rw [hr] at h
      cases h
    | ok r =>
      rw [hr] at h
      dsimp only at h
      by_cases htype : l.type = r.type
      · rw [if_neg (not_not_intro htype), compareColumn, if_pos hloop] at h
        refine ⟨l, r, ?_⟩
        generalize hn : (if l.constant && !r.constant then r.count else l.count) = n at h ⊢
        cases hverdicts : collect (fun i => (l.read i).bind fun x => (r.read i).bind fun y =>
            compareCells special comp l.type x y) n with
        | error e =>
          rw [hverdicts] at h
          cases h
        | ok verdicts =>
          rw [hverdicts] at h
          dsimp only [Except.bind] at h
          cases hflags : andFlags select verdicts with
          | error e =>
            rw [hflags] at h
            cases h
          | ok flags =>
            rw [hflags] at h
            cases h
            exact ⟨verdicts, rfl, rfl, htype, rfl, hflags⟩
      · rw [if_pos htype] at h
        cases h

/-- A flag with its verdict. -/
theorem andFlags_getElem (h : andFlags select verdicts = .ok select') {r : Nat} {v f : Bool}
    (hv : verdicts[r]? = some v) (hf : select[r]? = some f) : select'[r]? = some (f && v) := by
  unfold andFlags at h
  by_cases hlen : verdicts.length ≤ select.length
  · rw [if_pos hlen] at h
    cases h
    have hr := (List.getElem?_eq_some_iff.mp hv).1
    rw [List.getElem?_append_left (by rw [List.length_zipWith]; omega), List.getElem?_zipWith, hv, hf]
  · rw [if_neg hlen] at h
    cases h

/-- Where the comparison meets the condition, the flag is the one before and the comparison of the row. -/
theorem eval_meets (like : Number → Number → Bool)
    (h : eval special chunk comp left right select = .ok (.ok select')) {r : Nat} (hr : r < chunk.rows)
    (hmeets : ComparisonMeets chunk comp left right r) {f : Bool} (hf : select[r]? = some f) :
    select'[r]? = some (f && compareValue like comp (left.valueAt chunk r) (right.valueAt chunk r)) := by
  obtain ⟨l, rcol, verdicts, hl, hright, htype, hverdicts, hflags⟩ := eval_ok h hmeets.loop
  have hrows : 0 < chunk.rows := by omega
  have hshapel := getColumn_shape hrows hl
  have hshaper := getColumn_shape hrows hright
  obtain ⟨hlen, hall⟩ := collect_ok hverdicts
  -- the loop comes to the row
  have hreach : r < if (l.constant && !rcol.constant) = true then rcol.count else l.count := by
    have hconstants := hmeets.constants
    rw [hshapel.constant, hshaper.constant, hshapel.count, hshaper.count]
    cases hcl : left.isConstant with
    | false => simpa using hr
    | true =>
      cases hcr : right.isConstant with
      | false => simpa using hr
      | true =>
        have hone := hconstants hcl hcr
        simp
        omega
  obtain ⟨v, hv, hget⟩ := hall r hreach
  rw [getColumn_meets hl hr hmeets.meetsLeft, getColumn_meets hright hr hmeets.meetsRight] at hv
  dsimp only [Except.bind] at hv
  have hta := type_valueAt chunk r left
  have htb := type_valueAt chunk r right
  rw [← hshapel.type] at hta
  rw [← hshaper.type, ← htype] at htb
  rw [compareCells_eq hmeets.loop like hta htb hmeets.leftNull hmeets.rightNull fun ht =>
    hmeets.apart (hshapel.type ▸ ht)] at hv
  cases hv
  exact andFlags_getElem hflags hget hf

/-- Where the operators meet the condition, a column that is computed has the values of the rows, and the flags after
    `eval` are those before and the comparisons of the rows. -/
theorem vectorised_agrees (special : Special) (like : Number → Number → Bool) (chunk : Chunk k) :
    (∀ (e : Expression k) (col : Column), getColumn special chunk e = .ok col →
      (∀ r, r < chunk.rows → e.Meets chunk r) →
      ∀ r, r < chunk.rows → col.read r = .ok (.ofNumber (e.valueAt chunk r))) ∧
    ∀ (comp : CompOp) (left right : Expression k) (select select' : List Bool), select.length = chunk.rows →
      eval special chunk comp left right select = .ok (.ok select') →
      (∀ r, r < chunk.rows → ComparisonMeets chunk comp left right r) →
      ∀ r f, select[r]? = some f →
        select'[r]? = some (f && compareValue like comp (left.valueAt chunk r) (right.valueAt chunk r)) := by
  constructor
  · intro e col h hmeets r hr
    exact getColumn_meets h hr (hmeets r hr)
  · intro comp left right select select' hlen h hmeets r f hf
    have hr : r < chunk.rows := by
      rw [← hlen]
      exact (List.getElem?_eq_some_iff.mp hf).1
    exact eval_meets like h hr (hmeets r hr) hf

/-! ## A chunk of one row -/

/-- The INT column `a` and the FLOAT column `b`, both 1. -/
def ones : Chunk 2 where
  types c := if c = 0 then .ints else .floats
  rows := 1
  value c _ := if c = 0 then .ints 1 else .floats 1
  typed c r := by split <;> rfl

/-- Nothing is special here. -/
def noSpecial : Special := ⟨fun _ _ _ => none, fun _ _ _ => false⟩

/-- `a + a` is calculated over the chunk, and `a + a = 2` holds in the row. -/
theorem vectorised_agrees_sum :
    (∀ r, r < ones.rows → Column.read ⟨.ints, false, [.ints 2]⟩ r =
      .ok (.ofNumber (Expression.valueAt ones r (.arithmetic .add (.field 0) (.field 0))))) ∧
    ∀ r f, [true][r]? = some f → [true][r]? = some (f && compareValue (fun _ _ => false) .equalTo
      (Expression.valueAt ones r (.arithmetic .add (.field 0) (.field 0)))
      (Expression.valueAt ones r (.value (.ints 2)))) := by
  have hmeets : ∀ r, Expression.Meets ones r (.arithmetic .add (.field 0) (.field 0)) := fun r =>
    ⟨trivial, trivial, rfl, ArithmeticType.noConfusion⟩
  refine ⟨(vectorised_agrees noSpecial (fun _ _ => false) ones).1 (.arithmetic .add (.field 0) (.field 0)) _ rfl
    fun r _ => hmeets r, (vectorised_agrees noSpecial (fun _ _ => false) ones).2 .equalTo
      (.arithmetic .add (.field 0) (.field 0)) (.value (.ints 2)) [true] [true] rfl rfl fun r hr => ?_⟩
  exact ⟨hmeets r, trivial, rfl, rfl, rfl, NumberType.noConfusion, fun h => Bool.noConfusion h⟩

/-- `a + b`: the bytes of the INT are taken for a FLOAT. -/
theorem vectorised_misreads : ∃ col, getColumn noSpecial ones (.arithmetic .add (.field 0) (.field 1)) = .ok col ∧
    col.read 0 ≠ .ok (.ofNumber (Expression.valueAt ones 0 (.arithmetic .add (.field 0) (.field 1)))) := by
  have hbits : Cast.floatValue 1 = some (1 * 1 / 2 ^ 149) := rfl
  refine ⟨_, rfl, fun h => ?_⟩
  have hcell : floatOperation noSpecial .add (.ints 1) (.floats (some 1)) = .floats (some (1 * 1 / 2 ^ 149 + 1)) := by
    unfold floatOperation
    simp only [Cell.asFloat, hbits]
  have hsum : (1 * 1 / 2 ^ 149 + 1 : ℚ) = 1 + 1 := by
    have h : Except.ok (floatOperation noSpecial .add (.ints 1) (.floats (some 1))) =
      (.ok (.floats (some (1 + 1))) : Except Fault Cell) := h
    rw [hcell] at h
    exact Option.some.inj (Cell.floats.inj (Except.ok.inj h))
  norm_num at hsum

end Comparisons

end Miniob.Expr.Vectorised
