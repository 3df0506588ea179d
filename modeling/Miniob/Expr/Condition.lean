/-
  Conditions (`ComparisonExpr`, `ConjunctionExpr` and `SubQuery_ValueList_Expression` in
  src/observer/sql/expr/expression.cpp), over operands of the types INT, DATE and CHARS.

  * `getValue` is what the code computes for a row: true, false, or an error.  NULL is in band: it is
    `INT_NULL`, `DATE_NULL` and the empty string (`Item.StandsIn` for a value that is read as NULL).
  * `sql` is the value of the condition in three-valued logic.
  * `Good` says of each comparison and each OR what has to be true of the operands in the row.  What
    goes wrong is LIKE on a text with a `%`, NOT IN where the value of IN is unknown, a value that is
    read as NULL, and a subquery without rows: it gives an error, though it is set to NULL.

  Left out: operands of two types, which are converted, and errors of the operands themselves.
-/
import Miniob.Expr.Like
import Miniob.Expr.Text
import Miniob.Storage.Types
import Miniob.Common.Kleene
import Miniob.Index.AttrComparator

namespace Miniob.Expr

open Miniob.Common Miniob.Index
open Miniob.Storage (RC)

/-! ## Values -/

/-- The types of the operands. -/
inductive OperandType where
  | ints
  | dates
  | chars
  deriving DecidableEq

namespace OperandType

/-- What a `Value` of the type holds. -/
def Raw : OperandType → Type
  | ints => Int32
  | dates => Int32
  | chars => List UInt8

/-- The values of the type: dates of the calendar, and strings without a NUL. -/
def Data : OperandType → Type
  | ints => Int32
  | dates => {date : Int32 // checkDate date = true}
  | chars => {s : List UInt8 // ∀ b ∈ s, b ≠ 0}

def raw : {t : OperandType} → t.Data → t.Raw
  | ints, v => v
  | dates, v => v.val
  | chars, v => v.val

/-- `INT_NULL`, `DATE_NULL`, and no characters. -/
def null : (t : OperandType) → t.Raw
  | ints => intNull
  | dates => dateNull
  | chars => ([] : List UInt8)

/-- `is_null` of the types. -/
def isNull : {t : OperandType} → t.Raw → Bool
  | ints => fun v : Int32 => decide (v = intNull)
  | dates => fun v : Int32 => decide (v = dateNull)
  | chars => List.isEmpty

/-- `compare` of the types. -/
def compare : {t : OperandType} → t.Raw → t.Raw → Int
  | ints => IntegerType.compare
  | dates => DateType.compare
  | chars => CharType.compare

/-- `to_string` of the types. -/
def text : {t : OperandType} → t.Raw → List UInt8
  | ints => fun v : Int32 => intText v.toInt
  | dates => dateText
  | chars => id

end OperandType

/-- A `Value` that an operand of the type can have. -/
inductive Cell (t : OperandType) where
  /-- `Value::NULL_VALUE`: an INT, whatever the type is. -/
  | nullValue
  | value (v : t.Raw)

namespace Cell

variable {t : OperandType}

/-- `Value::is_null`. -/
def isNull : Cell t → Bool
  | nullValue => true
  | value v => OperandType.isNull v

/-- `Value::compare`: the type of the left side does it. -/
def compare : Cell t → Cell t → Int
  | nullValue, _ => -1
  | value v, nullValue => if OperandType.isNull v then -1 else 1
  | value v, value w => OperandType.compare v w

/-- `Value::get_string`.  The text of a NULL is not used. -/
def getString : Cell t → List UInt8
  | nullValue => [78, 85, 76, 76]
  | value v => OperandType.text v

end Cell

/-- What an operand is in a row. -/
inductive Item (t : OperandType) where
  /-- The literal NULL. -/
  | null
  /-- A column or an expression, with no value if it is NULL. -/
  | value (v : Option t.Data)

namespace Item

variable {t : OperandType}

/-- The `Value` it is in the code. -/
def cell : Item t → Cell t
  | null => .nullValue
  | value none => .value t.null
  | value (some v) => .value (OperandType.raw v)

/-- Its value in SQL: `none` is NULL. -/
def sql : Item t → Option t.Data
  | null => none
  | value v => v

/-- A value that is read as NULL. -/
def StandsIn (a : Item t) : Prop := a.sql ≠ none ∧ a.cell.isNull = true

end Item

/-! ## Conditions -/

/-- `enum CompOp`, less those of `inSet` and `existsSet`. -/
inductive CompOp where
  | equalTo
  | lessEqual
  | notEqual
  | lessThan
  | greatEqual
  | greatThan
  | is
  | notIs
  | like
  | notLike
  deriving DecidableEq

/-- One side of a comparison; `ρ` are the rows. -/
inductive Side (ρ : Type) (t : OperandType) where
  | expr (value : ρ → Item t)
  /-- A subquery; it may depend on the row. -/
  | subquery (rows : ρ → List (Item t))

/-- A comparison with its two sides. -/
structure Comparison (ρ : Type) where
  type : OperandType
  op : CompOp
  left : Side ρ type
  right : Side ρ type
  /-- `IS` and `IS NOT` stand before NULL. -/
  is_null : op = .is ∨ op = .notIs → right = .expr fun _ => .null

inductive ConjunctionType where
  | and
  | or
  deriving DecidableEq

/-- A condition of WHERE; `ρ` are the rows. -/
inductive Condition (ρ : Type) where
  | comparison (c : Comparison ρ)
  /-- `IN` and `NOT IN`, with a list of values or a subquery. -/
  | inSet (negated : Bool) {t : OperandType} (left : ρ → Item t) (values : ρ → List (Item t))
  /-- `EXISTS` and `NOT EXISTS`; the first column of the subquery is read. -/
  | existsSet (negated : Bool) {t : OperandType} (rows : ρ → List (Item t))
  | conjunction (type : ConjunctionType) (children : List (Condition ρ))

/-! ## What the code computes -/

variable {ρ : Type} {t : OperandType}

/-- `compare_value`. -/
def compareValue (op : CompOp) (left right : Cell t) : Bool :=
  let cmpResult := left.compare right
  let hasNull := left.isNull || right.isNull
  match op with
  | .equalTo => decide (cmpResult = 0) && !hasNull
  | .lessEqual => decide (cmpResult ≤ 0) && !hasNull
  | .notEqual => decide (cmpResult ≠ 0) && !hasNull
  | .lessThan => decide (cmpResult < 0) && !hasNull
  | .greatEqual => decide (cmpResult ≥ 0) && !hasNull
  | .greatThan => decide (cmpResult > 0) && !hasNull
  | .is => left.isNull && right.isNull
  | .notIs => !(left.isNull && right.isNull)
  | .like => matchStr right.getString left.getString && !hasNull
  | .notLike => !matchStr right.getString left.getString && !hasNull

/-- `get_value_from_subquery`.  A subquery without rows sets the value to NULL, and `rc` stays what the
    last call has returned. -/
def Side.getValue (r : ρ) : Side ρ t → Except RC (Cell t)
  | expr value => .ok (value r).cell
  | subquery rows =>
    match rows r with
    | [] => .error .recordEof
    | [a] => .ok a.cell
    | _ :: _ :: _ => .error .invalidArgument

def Comparison.getValue (r : ρ) (c : Comparison ρ) : Except RC Bool := do
  let left ← c.left.getValue r
  let right ← c.right.getValue r
  return compareValue c.op left right

/-- The loop of `IN` over the values. -/
def found (left : Cell t) (values : List (Cell t)) : Bool :=
  values.any fun right => decide (left.compare right = 0)

mutual

def Condition.getValue (r : ρ) : Condition ρ → Except RC Bool
  | .comparison c => c.getValue r
  | .inSet negated left values => .ok (found (left r).cell ((values r).map Item.cell) != negated)
  | .existsSet negated rows => .ok (!(rows r).isEmpty != negated)
  | .conjunction type children => if children.isEmpty then .ok true else childrenValue r type children

/-- The loop of `ConjunctionExpr::get_value`. -/
def childrenValue (r : ρ) (type : ConjunctionType) : List (Condition ρ) → Except RC Bool
  | [] => .ok (decide (type = .and))
  | expr :: children => do
    let boolValue ← expr.getValue r
    if (type = .and ∧ boolValue = false) ∨ (type = .or ∧ boolValue = true) then return boolValue
    else childrenValue r type children

end

/-! ## What a condition should be -/

namespace OperandType

def byteOrder (a b : UInt8) : Int := linearCmp a.toNat b.toNat

/-- The text of a value, as LIKE takes it. -/
def dataText (a : t.Data) : List UInt8 := text (raw a)

/-- The order of the values: below, equal or above. -/
def order : {t : OperandType} → t.Data → t.Data → Int
  | ints => fun a b : Int32 => linearCmp a.toInt b.toInt
  | dates => fun a b : {_date : Int32 // _} => linearCmp a.val.toInt b.val.toInt
  | chars => fun a b : {_s : List UInt8 // _} => listCmp byteOrder a.val b.val

end OperandType

/-- The value of a comparison in SQL. -/
def CompOp.sql (op : CompOp) (a b : Option t.Data) : Truth :=
  match op with
  | equalTo => Truth.relate (fun a b => decide (OperandType.order a b = 0)) a b
  | lessEqual => Truth.relate (fun a b => decide (OperandType.order a b ≤ 0)) a b
  | notEqual => Truth.relate (fun a b => decide (OperandType.order a b ≠ 0)) a b
  | lessThan => Truth.relate (fun a b => decide (OperandType.order a b < 0)) a b
  | greatEqual => Truth.relate (fun a b => decide (0 ≤ OperandType.order a b)) a b
  | greatThan => Truth.relate (fun a b => decide (0 < OperandType.order a b)) a b
  | is => some (a.isNone && b.isNone)
  | notIs => some !(a.isNone && b.isNone)
  | like => Truth.relate (fun a b => decide (Like (OperandType.dataText b) (OperandType.dataText a))) a b
  | notLike => Truth.relate (fun a b => !decide (Like (OperandType.dataText b) (OperandType.dataText a))) a b

/-- A subquery without rows is NULL, and one with a row is what it has in the row. -/
def Side.sql (r : ρ) : Side ρ t → Option t.Data
  | expr value => (value r).sql
  | subquery rows => (rows r).head?.bind Item.sql

def Comparison.sql (r : ρ) (c : Comparison ρ) : Truth := c.op.sql (c.left.sql r) (c.right.sql r)

/-- `IN`. -/
def inSql (a : Option t.Data) (values : List (Option t.Data)) : Truth :=
  Truth.any (values.map fun b => CompOp.equalTo.sql a b)

/-- With `NOT` in front, or without. -/
def negateIf (negated : Bool) (v : Truth) : Truth := if negated then v.not else v

mutual

/-- The value of the condition in SQL. -/
def Condition.sql (r : ρ) : Condition ρ → Truth
  | .comparison c => c.sql r
  | .inSet negated left values => negateIf negated (inSql (left r).sql ((values r).map Item.sql))
  | .existsSet negated rows => negateIf negated (some !(rows r).isEmpty)
  | .conjunction .and children => Truth.all (childrenSql r children)
  | .conjunction .or children => Truth.any (childrenSql r children)

/-- The values of the children in SQL, in their order. -/
def childrenSql (r : ρ) : List (Condition ρ) → List Truth
  | [] => []
  | c :: children => c.sql r :: childrenSql r children

end

namespace Condition

mutual

/-- The condition and all conditions in it. -/
def subconditions : Condition ρ → List (Condition ρ)
  | comparison c => [comparison c]
  | inSet negated left values => [inSet negated left values]
  | existsSet negated rows => [existsSet negated rows]
  | conjunction type children => conjunction type children :: childrenSubconditions children

def childrenSubconditions : List (Condition ρ) → List (Condition ρ)
  | [] => []
  | c :: children => c.subconditions ++ childrenSubconditions children

end

/-- The condition is true for the row exactly if it should be. -/
def Right (r : ρ) (c : Condition ρ) : Prop := c.getValue r = .ok true ↔ c.sql r = some true

end Condition

/-! ## The condition for that -/

/-- The subquery has at most one row. -/
def Side.Scalar (r : ρ) : Side ρ t → Prop
  | expr _ => True
  | subquery rows => (rows r).length ≤ 1

/-- What the side is in the row; nothing if it is a subquery without rows. -/
def Side.item (r : ρ) : Side ρ t → Option (Item t)
  | expr value => some (value r)
  | subquery rows => (rows r).head?

/-- No operand of a true comparison is read as NULL, nor is one that is tested for NULL; and LIKE does
    not need a run with a `%` in it. -/
def CompOp.Good (op : CompOp) (a b : Item t) : Prop :=
  match op with
  | is | notIs => ¬ a.StandsIn
  | like | notLike => (op.sql a.sql b.sql = some true → ¬ a.StandsIn ∧ ¬ b.StandsIn) ∧
      ∀ x y, a.sql = some x → b.sql = some y → ¬ a.StandsIn → ¬ b.StandsIn →
        Like (OperandType.dataText y) (OperandType.dataText x) →
          LikeStopping (OperandType.dataText y) (OperandType.dataText x)
  | _ => op.sql a.sql b.sql = some true → ¬ a.StandsIn ∧ ¬ b.StandsIn

namespace Condition

/-- SQL has a value for each part: scalar subqueries have at most one row, and an OR has children. -/
def Defined (r : ρ) (c : Condition ρ) : Prop :=
  ∀ s ∈ c.subconditions, match s with
    | comparison c => c.left.Scalar r ∧ c.right.Scalar r
    | conjunction .or children => children ≠ []
    | _ => True

mutual

/-- The condition meets a subquery without rows. -/
def Aborts (r : ρ) : Condition ρ → Prop
  | comparison c => c.left.item r = none ∨ c.right.item r = none
  | inSet _ _ _ => False
  | existsSet _ _ => False
  | conjunction type children => ChildrenAbort r type children

/-- One of the children does, and those before it do not settle the value. -/
def ChildrenAbort (r : ρ) (type : ConjunctionType) : List (Condition ρ) → Prop
  | [] => False
  | c :: children => c.Aborts r ∨
      ((c.sql r = some true ↔ type = .and) ∧ ChildrenAbort r type children)

end

def GoodAt (r : ρ) : Condition ρ → Prop
  | comparison c => (c.left.item r = none ∨ c.right.item r = none → c.sql r ≠ some true) ∧
      ∀ a b, c.left.item r = some a → c.right.item r = some b → c.op.Good a b
  | inSet negated left values =>
      (inSql (left r).sql ((values r).map Item.sql) = some true → ¬ (left r).StandsIn) ∧
      (negated = true → inSql (left r).sql ((values r).map Item.sql) ≠ none)
  | existsSet _ _ => True
  | conjunction .and _ => True
  | conjunction .or children => ChildrenAbort r .or children → ∀ c ∈ children, c.sql r ≠ some true

/-- Comparisons and ORs for which the code is right:

    * no value is read as NULL where that makes a difference, and LIKE needs no run with a `%` in it;
    * the value of IN is known below a NOT;
    * a true comparison, or an OR with a true child, does not meet a subquery without rows. -/
def Good (r : ρ) (c : Condition ρ) : Prop := ∀ s ∈ c.subconditions, s.GoodAt r

end Condition

/-! ## Values -/

section Values

variable {a b : Item t} {x y : t.Data}

/-- No date of the calendar is `DATE_NULL`. -/
theorem isNull_date (d : {date : Int32 // checkDate date = true}) : d.val ≠ dateNull := by
  intro h
  have hd := d.property
  rw [h] at hd
  exact absurd hd (by decide)

theorem OperandType.isNull_null (t : OperandType) : OperandType.isNull t.null = true := by
  cases t <;> rfl

/-- A value that is not read as NULL. -/
theorem Item.of_not_isNull (h : a.cell.isNull = false) : ∃ x, a.sql = some x ∧
    a.cell = .value (OperandType.raw x) ∧ OperandType.isNull (OperandType.raw x) = false := by
  cases a with
  | null => cases h
  | value v =>
    cases v with
    | none => exact absurd (OperandType.isNull_null t) (by simpa [Item.cell, Cell.isNull] using h)
    | some x => exact ⟨x, rfl, rfl, h⟩

theorem Item.not_standsIn_of (h : a.cell.isNull = false) : ¬ a.StandsIn := by
  rintro ⟨-, hnull⟩
  rw [h] at hnull
  cases hnull

theorem Item.standsIn_of (hsql : a.sql = some x) (hnull : a.cell.isNull = true) : a.StandsIn :=
  ⟨by simp [hsql], hnull⟩

/-- What is NULL in SQL is read as NULL. -/
theorem Item.isNull_of_sql (h : a.sql = none) : a.cell.isNull = true := by
  cases a with
  | null => rfl
  | value v =>
    have hv : v = none := h
    rw [hv]
    exact OperandType.isNull_null t

theorem OperandType.exact_order (h : order x y = 0) : x = y := by
  cases t with
  | ints => exact Int32.toInt_inj.mp (exact_linearCmp Set.univ _ trivial _ trivial h)
  | dates => exact Subtype.ext (Int32.toInt_inj.mp (exact_linearCmp Set.univ _ trivial _ trivial h))
  | chars => exact Subtype.ext (eq_of_listCmp exact_compareByte h)

theorem ne_intNull_of {a : Int32} (h : @OperandType.isNull .ints a = false) : a ≠ intNull :=
  of_decide_eq_false h

theorem integerCompare {a b : Int32} (ha : a ≠ intNull) (hb : b ≠ intNull) :
    IntegerType.compare a b = linearCmp a.toInt b.toInt := by
  unfold IntegerType.compare absentFirst
  rw [if_neg (by simpa using ha), if_neg (by simpa using hb)]
  exact compareInt_eq a b

theorem dateCompare {a b : Int32} (ha : a ≠ dateNull) (hb : b ≠ dateNull) :
    DateType.compare a b = linearCmp a.toInt b.toInt := by
  unfold DateType.compare absentFirst
  rw [if_neg (by simpa using ha), if_neg (by simpa using hb)]
  exact compareInt_eq a b

theorem charCompare {a b : List UInt8} (ha : a.isEmpty = false) (hb : b.isEmpty = false)
    (hnul : ∀ c ∈ a, c ≠ 0) : CharType.compare a b = listCmp OperandType.byteOrder a b := by
  unfold CharType.compare absentFirst
  rw [ha, hb]
  exact compareString_eq hnul

/-- `compare` on values that are not read as NULL. -/
theorem OperandType.compare_raw (hx : isNull (raw x) = false) (hy : isNull (raw y) = false) :
    compare (raw x) (raw y) = order x y := by
  cases t with
  | ints => exact integerCompare (ne_intNull_of hx) (ne_intNull_of hy)
  | dates => exact dateCompare (isNull_date x) (isNull_date y)
  | chars => exact charCompare hx hy x.property

end Values

/-! ## One comparison -/

section Comparisons

variable {a b : Item t} {x y : t.Data} {op : CompOp}

/-- Without a NULL the code compares the values, and LIKE stops at a `%`. -/
theorem compareValue_eq (hx : OperandType.isNull (OperandType.raw x) = false)
    (hy : OperandType.isNull (OperandType.raw y) = false) (hop : op ≠ .like ∧ op ≠ .notLike) :
    compareValue op (.value (OperandType.raw x)) (.value (OperandType.raw y)) = true ↔
      op.sql (some x) (some y) = some true := by
  have hcmp : Cell.compare (.value (OperandType.raw x)) (.value (OperandType.raw y)) =
      OperandType.order x y := OperandType.compare_raw hx hy
  have hnx : Cell.isNull (.value (OperandType.raw x)) = false := hx
  have hny : Cell.isNull (.value (OperandType.raw y)) = false := hy
  unfold compareValue
  rw [hcmp, hnx, hny]
  cases op with
  | like => exact absurd rfl hop.1
  | notLike => exact absurd rfl hop.2
  | _ => simp [CompOp.sql, Truth.relate]

theorem compareValue_like (hx : OperandType.isNull (OperandType.raw x) = false)
    (hy : OperandType.isNull (OperandType.raw y) = false) :
    compareValue .like (.value (OperandType.raw x)) (.value (OperandType.raw y)) =
        matchStr (OperandType.dataText y) (OperandType.dataText x) ∧
      compareValue .notLike (.value (OperandType.raw x)) (.value (OperandType.raw y)) =
        !matchStr (OperandType.dataText y) (OperandType.dataText x) := by
  have hnx : Cell.isNull (.value (OperandType.raw x)) = false := hx
  have hny : Cell.isNull (.value (OperandType.raw y)) = false := hy
  unfold compareValue
  rw [hnx, hny]
  simp [Cell.getString, OperandType.dataText]

/-- With a NULL only the tests for NULL are true. -/
theorem compareValue_of_null (hop : op ≠ .is ∧ op ≠ .notIs)
    (h : a.cell.isNull = true ∨ b.cell.isNull = true) : compareValue op a.cell b.cell = false := by
  have hnull : (a.cell.isNull || b.cell.isNull) = true := by simpa using h
  unfold compareValue
  rw [hnull]
  cases op with
  | is => exact absurd rfl hop.1
  | notIs => exact absurd rfl hop.2
  | _ => simp

/-- Apart from IS, a comparison is only true of two values. -/
theorem CompOp.sql_of_none (hop : op ≠ .is ∧ op ≠ .notIs) {v w : Option t.Data}
    (h : op.sql v w = some true) : (∃ x, v = some x) ∧ ∃ y, w = some y := by
  cases v with
  | none =>
    cases op with
    | is => exact absurd rfl hop.1
    | notIs => exact absurd rfl hop.2
    | _ => cases h
  | some x =>
    cases w with
    | none =>
      cases op with
      | is => exact absurd rfl hop.1
      | notIs => exact absurd rfl hop.2
      | _ => cases h
    | some y => exact ⟨⟨x, rfl⟩, ⟨y, rfl⟩⟩

/-- The condition for a comparison with a NULL, or with a value that is read as NULL. -/
theorem standsIn_iff_of_null (hop : op ≠ .is ∧ op ≠ .notIs)
    (h : a.cell.isNull = true ∨ b.cell.isNull = true) :
    (op.sql a.sql b.sql = some true → ¬ a.StandsIn ∧ ¬ b.StandsIn) ↔ op.sql a.sql b.sql ≠ some true := by
  constructor
  · intro hgood hsql
    obtain ⟨⟨x, hx⟩, ⟨y, hy⟩⟩ := CompOp.sql_of_none hop hsql
    rcases h with h | h
    · exact (hgood hsql).1 (Item.standsIn_of hx h)
    · exact (hgood hsql).2 (Item.standsIn_of hy h)
  · exact fun h hsql => absurd hsql h

/-- A value is read as NULL by mistake exactly if it stands for it. -/
theorem stands_iff : (a.cell.isNull = true ↔ a.sql = none) ↔ ¬ a.StandsIn := by
  unfold Item.StandsIn
  constructor
  · exact fun h hstands => hstands.1 (h.mp hstands.2)
  · intro h
    refine ⟨fun hnull => ?_, Item.isNull_of_sql⟩
    by_contra hsql
    exact h ⟨hsql, hnull⟩

/-- The tests for NULL are wrong about the values that are read as NULL. -/
theorem compareValue_isNull_right_iff (his : op = .is ∨ op = .notIs) :
    (compareValue op a.cell Item.null.cell = true ↔ op.sql a.sql Item.null.sql = some true) ↔ op.Good a .null := by
  rcases his with rfl | rfl
  · have hcode : compareValue .is a.cell Item.null.cell = a.cell.isNull := Bool.and_true _
    have hsql : CompOp.is.sql a.sql Item.null.sql = some a.sql.isNone := congrArg some (Bool.and_true _)
    rw [hcode, hsql, Option.some.injEq, Option.isNone_iff_eq_none]
    exact stands_iff
  · have hcode : compareValue .notIs a.cell Item.null.cell = !a.cell.isNull :=
      congrArg Bool.not (Bool.and_true _)
    have hsql : CompOp.notIs.sql a.sql Item.null.sql = some !a.sql.isNone :=
      congrArg (fun v => some !v) (Bool.and_true _)
    rw [hcode, hsql, Option.some.injEq, Bool.not_eq_true', Bool.not_eq_true', ← Bool.not_eq_true,
      ← Bool.not_eq_true, not_iff_not, Option.isNone_iff_eq_none]
    exact stands_iff

/-- What is wrong about LIKE, of two operands that are what they are read as. -/
def LikeStops (op : CompOp) (a b : Item t) : Prop :=
  op = .like ∨ op = .notLike → ∀ x y, a.sql = some x → b.sql = some y → ¬ a.StandsIn → ¬ b.StandsIn →
    Like (OperandType.dataText y) (OperandType.dataText x) →
      LikeStopping (OperandType.dataText y) (OperandType.dataText x)

theorem good_iff (hop : op ≠ .is ∧ op ≠ .notIs) : op.Good a b ↔
    (op.sql a.sql b.sql = some true → ¬ a.StandsIn ∧ ¬ b.StandsIn) ∧ LikeStops op a b := by
  unfold LikeStops
  cases op <;> simp_all [CompOp.Good]

/-- With a NULL on one side the code says false, which is right unless a value only stands for NULL. -/
theorem compareValue_null_right_iff (hop : op ≠ .is ∧ op ≠ .notIs)
    (hnull : a.cell.isNull = true ∨ b.cell.isNull = true) :
    (compareValue op a.cell b.cell = true ↔ op.sql a.sql b.sql = some true) ↔ op.Good a b := by
  have hlike : LikeStops op a b := by
    intro _ x y hx hy ha hb
    rcases hnull with hnull | hnull
    · exact absurd (Item.standsIn_of hx hnull) ha
    · exact absurd (Item.standsIn_of hy hnull) hb
  rw [good_iff hop, and_iff_left hlike, compareValue_of_null hop hnull, standsIn_iff_of_null hop hnull]
  constructor
  · exact fun h hsql => absurd (h.mpr hsql) (by decide)
  · exact fun h => ⟨fun hfalse => absurd hfalse (by decide), fun hsql => absurd hsql h⟩

/-- With two values what can go wrong is LIKE. -/
theorem compareValue_value_right_iff (hop : op ≠ .is ∧ op ≠ .notIs) (ha : a.cell.isNull = false)
    (hb : b.cell.isNull = false) :
    (compareValue op a.cell b.cell = true ↔ op.sql a.sql b.sql = some true) ↔ op.Good a b := by
  obtain ⟨x, hx, hxcell, hxnull⟩ := Item.of_not_isNull ha
  obtain ⟨y, hy, hycell, hynull⟩ := Item.of_not_isNull hb
  have hstands := And.intro (Item.not_standsIn_of ha) (Item.not_standsIn_of hb)
  rw [good_iff hop, LikeStops, hx, hy, hxcell, hycell]
  by_cases hlikes : op = .like ∨ op = .notLike
  · have hgood : (∀ x' y', some x = some x' → some y = some y' → ¬ a.StandsIn → ¬ b.StandsIn →
        Like (OperandType.dataText y') (OperandType.dataText x') →
          LikeStopping (OperandType.dataText y') (OperandType.dataText x')) ↔
        (Like (OperandType.dataText y) (OperandType.dataText x) →
          LikeStopping (OperandType.dataText y) (OperandType.dataText x)) := by
      constructor
      · exact fun h => h x y rfl rfl hstands.1 hstands.2
      · intro h x' y' hx' hy' _ _
        cases hx'
        cases hy'
        exact h
    have hstop := @LikeStopping.like (OperandType.dataText y) (OperandType.dataText x)
    have hmatch := @matchStr_eq_true (OperandType.dataText y) (OperandType.dataText x)
    obtain ⟨hlike, hnotLike⟩ := compareValue_like hxnull hynull
    rw [forall_prop_of_true hlikes, hgood, and_iff_right fun _ => hstands]
    rcases hlikes with rfl | rfl
    · rw [hlike, hmatch]
      simp only [CompOp.sql, Truth.relate, Option.bind_some, Option.map_some, Option.some.injEq,
        decide_eq_true_eq]
      exact ⟨fun h => h.mpr, fun h => ⟨hstop, h⟩⟩
    · rw [hnotLike, Bool.not_eq_true', ← Bool.not_eq_true, hmatch]
      simp only [CompOp.sql, Truth.relate, Option.bind_some, Option.map_some, Option.some.injEq,
        Bool.not_eq_true', decide_eq_false_iff_not, not_iff_not]
      exact ⟨fun h => h.mpr, fun h => ⟨hstop, h⟩⟩
  · -- the other operators compare the data
    rw [compareValue_eq hxnull hynull (not_or.mp hlikes)]
    simp [hstands, hlikes]

/-- For which operands a comparison is right. -/
theorem compareValue_right_iff (hisNull : op = .is ∨ op = .notIs → b = .null) :
    (compareValue op a.cell b.cell = true ↔ op.sql a.sql b.sql = some true) ↔ op.Good a b := by
  by_cases his : op = .is ∨ op = .notIs
  · rw [hisNull his]
    exact compareValue_isNull_right_iff his
  · by_cases hnull : a.cell.isNull = true ∨ b.cell.isNull = true
    · exact compareValue_null_right_iff (not_or.mp his) hnull
    · rw [not_or, Bool.not_eq_true, Bool.not_eq_true] at hnull
      exact compareValue_value_right_iff (not_or.mp his) hnull.1 hnull.2

/-! ## IN -/

/-- No value compares equal to NULL. -/
theorem OperandType.compare_ne_zero {v w : t.Raw} (h : isNull v = true ∨ isNull w = true) :
    compare v w ≠ 0 := by
  cases t with
  | ints => exact absentFirst_ne_zero h
  | dates => exact absentFirst_ne_zero h
  | chars => exact absentFirst_ne_zero h

/-- A NULL compares equal to nothing, so IN never finds it. -/
theorem Cell.compare_ne_zero {c d : Cell t} (h : c.isNull = true ∨ d.isNull = true) :
    c.compare d ≠ 0 := by
  cases c with
  | nullValue => exact (by decide : (-1 : Int) ≠ 0)
  | value v =>
    cases d with
    | nullValue =>
      show (if OperandType.isNull v = true then (-1 : Int) else 1) ≠ 0
      split <;> decide
    | value w => exact OperandType.compare_ne_zero h

/-- Two operands are found equal if they are, and are not read as NULL. -/
theorem compare_eq_zero : a.cell.compare b.cell = 0 ↔
    a.cell.isNull = false ∧ CompOp.equalTo.sql a.sql b.sql = some true := by
  simp only [CompOp.sql, Truth.relate_eq_some, decide_eq_true_eq]
  constructor
  · intro h
    have hnull : ¬ (a.cell.isNull = true ∨ b.cell.isNull = true) := fun hnull =>
      Cell.compare_ne_zero hnull h
    rw [not_or, Bool.not_eq_true, Bool.not_eq_true] at hnull
    obtain ⟨x, hx, hxcell, hxnull⟩ := Item.of_not_isNull hnull.1
    obtain ⟨y, hy, hycell, hynull⟩ := Item.of_not_isNull hnull.2
    rw [hxcell, hycell] at h
    have horder : OperandType.order x y = 0 := (OperandType.compare_raw hxnull hynull).symm.trans h
    exact ⟨hnull.1, x, y, hx, hy, horder⟩
  · rintro ⟨hnull, x, y, hx, hy, horder⟩
    obtain rfl := OperandType.exact_order horder
    obtain ⟨z, hz, hzcell, hznull⟩ := Item.of_not_isNull hnull
    obtain rfl : x = z := Option.some.inj (hx.symm.trans hz)
    have hycell : b.cell = .value (OperandType.raw x) := by
      cases b with
      | null => cases hy
      | value v =>
        have hv : v = some x := hy
        rw [hv]
        rfl
    rw [hzcell, hycell]
    exact (OperandType.compare_raw hznull hznull).trans horder

/-- IN finds a value only if it is there in SQL as well. -/
theorem found_eq_true {values : List (Item t)} : found a.cell (values.map Item.cell) = true ↔
    a.cell.isNull = false ∧ inSql a.sql (values.map Item.sql) = some true := by
  unfold found inSql
  simp only [List.any_map, List.any_eq_true, Function.comp_apply, decide_eq_true_eq, compare_eq_zero,
    Truth.any_eq_true, List.map_map, List.mem_map, exists_exists_and_eq_and]
  constructor
  · rintro ⟨b, hb, hnull, heq⟩
    exact ⟨hnull, b, hb, heq⟩
  · rintro ⟨hnull, b, hb, heq⟩
    exact ⟨b, hb, hnull, heq⟩

/-- For which values IN and NOT IN are right. -/
theorem inSet_right_iff (negated : Bool) (values : List (Item t)) :
    ((found a.cell (values.map Item.cell) != negated) = true ↔
        negateIf negated (inSql a.sql (values.map Item.sql)) = some true) ↔
      (inSql a.sql (values.map Item.sql) = some true → ¬ a.StandsIn) ∧
        (negated = true → inSql a.sql (values.map Item.sql) ≠ none) := by
  -- a true IN has a left side
  have hleft : inSql a.sql (values.map Item.sql) = some true → a.sql ≠ none := by
    intro h
    obtain ⟨v, hv, htrue⟩ := Truth.any_eq_true.mp h
    obtain ⟨b, hb, rfl⟩ := List.mem_map.mp hv
    obtain ⟨⟨x, hx⟩, -⟩ := CompOp.sql_of_none (by decide) htrue
    rw [hx]
    exact Option.some_ne_none x
  have hfound := @found_eq_true t a values
  unfold Item.StandsIn
  cases hv : inSql a.sql (values.map Item.sql) with
  | none =>
    rw [hv] at hfound
    cases negated <;> simp_all [negateIf, Truth.not]
  | some v =>
    rw [hv] at hfound hleft
    cases v <;> cases negated <;> simp_all [negateIf, Truth.not]

end Comparisons

/-! ## Sides -/

/-- A side is an error, or what it is in the row. -/
theorem Side.cases {r : ρ} {side : Side ρ t} (h : side.Scalar r) :
    (side.item r = none ∧ side.getValue r = .error .recordEof ∧ side.sql r = none) ∨
      ∃ a, side.item r = some a ∧ side.getValue r = .ok a.cell ∧ side.sql r = a.sql := by
  cases side with
  | expr value => exact Or.inr ⟨value r, rfl, rfl, rfl⟩
  | subquery rows =>
    have h : (rows r).length ≤ 1 := h
    rcases hrows : rows r with _ | ⟨a, _ | ⟨b, rest⟩⟩
    · exact Or.inl ⟨by simp [item, hrows], by simp [getValue, hrows], by simp [sql, hrows]⟩
    · exact Or.inr ⟨a, by simp [item, hrows], by simp [getValue, hrows], by simp [sql, hrows]⟩
    · rw [hrows] at h
      simp at h

namespace Condition

/-- A statement about all conditions follows the tree. -/
@[elab_as_elim]
theorem induction {P : Condition ρ → Prop} (comparison : ∀ c, P (comparison c))
    (inSet : ∀ negated {t : OperandType} (left : ρ → Item t) values, P (inSet negated left values))
    (existsSet : ∀ negated {t : OperandType} (rows : ρ → List (Item t)), P (existsSet negated rows))
    (conjunction : ∀ type children, (∀ c ∈ children, P c) → P (conjunction type children))
    (c : Condition ρ) : P c := by
  refine @Condition.rec ρ P (fun children => ∀ c ∈ children, P c) comparison
    (fun negated _ => inSet negated) (fun negated _ => existsSet negated) conjunction ?_ ?_ c
  · exact List.forall_mem_nil P
  · exact fun c children hc hchildren => List.forall_mem_cons.mpr ⟨hc, hchildren⟩

theorem mem_childrenSubconditions {s : Condition ρ} {children : List (Condition ρ)} :
    s ∈ childrenSubconditions children ↔ ∃ c ∈ children, s ∈ c.subconditions := by
  induction children with
  | nil => simp [childrenSubconditions]
  | cons c children ih => simp [childrenSubconditions, ih]

theorem self_mem_subconditions (c : Condition ρ) : c ∈ c.subconditions := by
  cases c with
  | conjunction type children => exact List.mem_cons_self
  | _ => exact List.mem_singleton_self _

/-- What holds of all parts of a conjunction. -/
theorem forall_subconditions {P : Condition ρ → Prop} {type : ConjunctionType}
    {children : List (Condition ρ)} : (∀ s ∈ (conjunction type children).subconditions, P s) ↔
      P (conjunction type children) ∧ ∀ c ∈ children, ∀ s ∈ c.subconditions, P s := by
  show (∀ s ∈ conjunction type children :: childrenSubconditions children, P s) ↔ _
  rw [List.forall_mem_cons]
  refine and_congr_right fun _ => ⟨fun h c hc s hs => ?_, fun h s hs => ?_⟩
  · exact h s (mem_childrenSubconditions.mpr ⟨c, hc, hs⟩)
  · obtain ⟨c, hc, hs⟩ := mem_childrenSubconditions.mp hs
    exact h c hc s hs

theorem childrenSql_eq (r : ρ) (children : List (Condition ρ)) :
    childrenSql r children = children.map (Condition.sql r) := by
  induction children with
  | nil => rfl
  | cons c children ih => rw [childrenSql, ih, List.map_cons]

variable {r : ρ} {children : List (Condition ρ)}

/-- An error of the code is an abort. -/
def Fails (r : ρ) (c : Condition ρ) : Prop := (∃ rc, c.getValue r = .error rc) ↔ c.Aborts r

/-- A child that does not fail has a value, which is the one it should have. -/
theorem getValue_cases {c : Condition ρ} (hright : c.Right r) (hfails : c.Fails r) :
    (c.Aborts r ∧ ∃ rc, c.getValue r = .error rc) ∨
      (¬ c.Aborts r ∧ ((c.getValue r = .ok true ∧ c.sql r = some true) ∨
        (c.getValue r = .ok false ∧ c.sql r ≠ some true))) := by
  unfold Right at hright
  unfold Fails at hfails
  cases hv : c.getValue r with
  | error rc => exact Or.inl ⟨hfails.mp ⟨rc, hv⟩, rc, rfl⟩
  | ok b =>
    have habort : ¬ c.Aborts r := by
      intro habort
      obtain ⟨rc, hrc⟩ := hfails.mpr habort
      rw [hv] at hrc
      cases hrc
    rw [hv] at hright
    refine Or.inr ⟨habort, ?_⟩
    cases b with
    | true => exact Or.inl ⟨rfl, hright.mp rfl⟩
    | false =>
      refine Or.inr ⟨rfl, fun hsql => ?_⟩
      cases hright.mpr hsql

/-- The loop over the children of an AND. -/
theorem childrenValue_and (hright : ∀ c ∈ children, c.Right r) (hfails : ∀ c ∈ children, c.Fails r) :
    (childrenValue r .and children = .ok true ↔ ∀ c ∈ children, c.sql r = some true) ∧
      ((∃ rc, childrenValue r .and children = .error rc) ↔ ChildrenAbort r .and children) := by
  induction children with
  | nil => simp [childrenValue, ChildrenAbort]
  | cons c children ih =>
    obtain ⟨hc, hright⟩ := List.forall_mem_cons.mp hright
    obtain ⟨hc', hfails⟩ := List.forall_mem_cons.mp hfails
    obtain ⟨ihtrue, iherror⟩ := ih hright hfails
    unfold childrenValue ChildrenAbort
    rw [List.forall_mem_cons, ← ihtrue]
    rcases getValue_cases hc hc' with ⟨habort, rc, hv⟩ | ⟨habort, ⟨hv, hsql⟩ | ⟨hv, hsql⟩⟩
    · have hsql : c.sql r ≠ some true := fun hsql => by
        rw [hc.mpr hsql] at hv
        cases hv
      simp [hv, habort, hsql, bind, Except.bind]
    · simp [hv, habort, hsql, bind, Except.bind, iherror]
    · simp [hv, habort, hsql, bind, Except.bind, pure, Except.pure]

/-- The loop over the children of an OR. -/
theorem childrenValue_or (hright : ∀ c ∈ children, c.Right r) (hfails : ∀ c ∈ children, c.Fails r) :
    (childrenValue r .or children = .ok true ↔
        (∃ c ∈ children, c.sql r = some true) ∧ ¬ ChildrenAbort r .or children) ∧
      ((∃ rc, childrenValue r .or children = .error rc) ↔ ChildrenAbort r .or children) := by
  induction children with
  | nil => simp [childrenValue, ChildrenAbort]
  | cons c children ih =>
    obtain ⟨hc, hright⟩ := List.forall_mem_cons.mp hright
    obtain ⟨hc', hfails⟩ := List.forall_mem_cons.mp hfails
    obtain ⟨ihtrue, iherror⟩ := ih hright hfails
    unfold childrenValue ChildrenAbort
    rcases getValue_cases hc hc' with ⟨habort, rc, hv⟩ | ⟨habort, ⟨hv, hsql⟩ | ⟨hv, hsql⟩⟩
    · simp [hv, habort, bind, Except.bind]
    · simp [hv, habort, hsql, bind, Except.bind, pure, Except.pure]
    · simp [hv, habort, hsql, bind, Except.bind, iherror, ihtrue]

/-! ## The parts -/

/-- A comparison has the right value exactly where it is good, and fails only for a subquery without rows. -/
theorem comparison_right_iff {c : Comparison ρ} (hleft : c.left.Scalar r) (hright : c.right.Scalar r) :
    ((comparison c).Right r ↔ (comparison c).GoodAt r) ∧ (comparison c).Fails r := by
  have hcode : (comparison c).getValue r = (do
      let left ← c.left.getValue r
      let right ← c.right.getValue r
      return compareValue c.op left right) := rfl
  have hsql : (comparison c).sql r = c.op.sql (c.left.sql r) (c.right.sql r) := rfl
  unfold Right GoodAt Fails Aborts Comparison.sql
  rw [hcode, hsql]
  rcases Side.cases hleft with ⟨hli, hlv, hls⟩ | ⟨a, hli, hlv, hls⟩
  · simp [hli, hlv, hls, bind, Except.bind]
  · rcases Side.cases hright with ⟨hri, hrv, hrs⟩ | ⟨b, hri, hrv, hrs⟩
    · simp [hli, hri, hlv, hrv, hls, hrs, bind, Except.bind]
    · have hisNull : c.op = .is ∨ c.op = .notIs → b = .null := by
        intro his
        rw [c.is_null his] at hri
        exact (Option.some.inj hri).symm
      have hcmp := @compareValue_right_iff c.type a b c.op hisNull
      simp only [hli, hri, hlv, hrv, hls, hrs, bind, Except.bind, pure, Except.pure]
      rw [Except.ok.injEq, hcmp]
      simp

/-- With children that are right, AND is right, and OR unless an error stops it in front of a true child. -/
theorem conjunction_right_iff {type : ConjunctionType} (hor : type = .or → children ≠ [])
    (hright : ∀ c ∈ children, c.Right r) (hfails : ∀ c ∈ children, c.Fails r) :
    ((conjunction type children).Right r ↔ (conjunction type children).GoodAt r) ∧
      (conjunction type children).Fails r := by
  have hcode : (conjunction type children).getValue r = childrenValue r type children := by
    show (if children.isEmpty then _ else _) = _
    cases children with
    | nil =>
      cases type with
      | and => rfl
      | or => exact absurd rfl (hor rfl)
    | cons c children => rfl
  unfold Right Fails
  rw [hcode]
  cases type with
  | and =>
    obtain ⟨htrue, herror⟩ := childrenValue_and hright hfails
    have hsql : (conjunction .and children).sql r = Truth.all (children.map (Condition.sql r)) := by
      rw [← childrenSql_eq]
      rfl
    have hsqlTrue : (conjunction .and children).sql r = some true ↔ ∀ c ∈ children, c.sql r = some true := by
      rw [hsql, Truth.all_eq_true, List.forall_mem_map]
    rw [htrue, hsqlTrue]
    exact ⟨iff_of_true Iff.rfl trivial, herror⟩
  | or =>
    obtain ⟨htrue, herror⟩ := childrenValue_or hright hfails
    have hsql : (conjunction .or children).sql r = Truth.any (children.map (Condition.sql r)) := by
      rw [← childrenSql_eq]
      rfl
    have hsqlTrue : (conjunction .or children).sql r = some true ↔ ∃ c ∈ children, c.sql r = some true := by
      simp only [hsql, Truth.any_eq_true, List.mem_map, exists_exists_and_eq_and]
    rw [htrue, hsqlTrue]
    refine ⟨?_, herror⟩
    show _ ↔ (ChildrenAbort r .or children → ∀ c ∈ children, c.sql r ≠ some true)
    constructor
    · intro h habort c hc hsql
      exact (h.mpr ⟨c, hc, hsql⟩).2 habort
    · intro h
      refine ⟨fun htrue => htrue.1, fun hsql => ⟨hsql, fun habort => ?_⟩⟩
      obtain ⟨c, hc, htrue⟩ := hsql
      exact h habort c hc htrue

/-- A condition whose parts are right fails where it aborts. -/
theorem right_and_fails (c : Condition ρ) (hdefined : c.Defined r) :
    ((∀ s ∈ c.subconditions, s.Right r) ↔ c.Good r) ∧
      ((∀ s ∈ c.subconditions, s.Right r) → c.Fails r) := by
  induction c using Condition.induction with
  | comparison c =>
    obtain ⟨hleft, hright⟩ := hdefined _ (List.mem_singleton_self _)
    obtain ⟨hiff, hfails⟩ := comparison_right_iff hleft hright
    unfold Good
    rw [subconditions, List.forall_mem_singleton, List.forall_mem_singleton]
    exact ⟨hiff, fun _ => hfails⟩
  | inSet negated left values =>
    have hcode : (inSet negated left values).getValue r =
        .ok (found (left r).cell ((values r).map Item.cell) != negated) := rfl
    unfold Good
    rw [subconditions, List.forall_mem_singleton, List.forall_mem_singleton]
    refine ⟨?_, fun _ => ?_⟩
    · unfold Right
      rw [hcode, Except.ok.injEq]
      exact inSet_right_iff negated (values r)
    · unfold Fails
      rw [hcode]
      exact iff_of_false (by simp) not_false
  | existsSet negated rows =>
    have hcode : (existsSet negated rows).getValue r = .ok (!(rows r).isEmpty != negated) := rfl
    have hsql : (existsSet negated rows).sql r = some (!(rows r).isEmpty != negated) := by
      show negateIf negated _ = _
      cases negated <;> simp [negateIf, Truth.not]
    unfold Good
    rw [subconditions, List.forall_mem_singleton, List.forall_mem_singleton]
    refine ⟨iff_of_true ?_ trivial, fun _ => ?_⟩
    · unfold Right
      rw [hcode, hsql, Except.ok.injEq, Option.some.injEq]
    · unfold Fails
      rw [hcode]
      exact iff_of_false (by simp) not_false
  | conjunction type children ih =>
    unfold Defined at hdefined
    rw [forall_subconditions] at hdefined
    obtain ⟨hor, hchildren⟩ := hdefined
    have hor : type = .or → children ≠ [] := by
      rintro rfl
      exact hor
    unfold Good
    rw [forall_subconditions, forall_subconditions]
    -- all parts of the children are right in both cases
    have hparts : (∀ c ∈ children, ∀ s ∈ c.subconditions, s.Right r) ↔
        ∀ c ∈ children, ∀ s ∈ c.subconditions, s.GoodAt r :=
      forall₂_congr fun c hc => (ih c hc (hchildren c hc)).1
    have hself := fun hright : ∀ c ∈ children, ∀ s ∈ c.subconditions, s.Right r =>
      conjunction_right_iff hor (fun c hc => hright c hc c (self_mem_subconditions c))
        (fun c hc => (ih c hc (hchildren c hc)).2 (hright c hc))
    rw [← hparts]
    exact ⟨and_congr_left fun hright => (hself hright).1, fun h => (hself h.2).2⟩

/-- **For which rows a condition and all its parts are right.** -/
theorem where_three_valued_iff (c : Condition ρ) (r : ρ) (hdefined : c.Defined r) :
    (∀ s ∈ c.subconditions, s.Right r) ↔ c.Good r :=
  (right_and_fails c hdefined).1

/-- A subquery with the one row 1, compared with 1, in an OR. -/
def oneIsOne : Condition Unit :=
  conjunction .or [comparison {
    type := .ints
    op := .equalTo
    left := .subquery fun _ => [.value (some (1 : Int32))]
    right := .expr fun _ => .value (some (1 : Int32))
    is_null := by simp }]

/-- A subquery with the row 1, compared with 1, below an OR. -/
theorem where_three_valued_iff_or :
    (∀ s ∈ oneIsOne.subconditions, s.Right ()) ↔ oneIsOne.Good () := by
  refine where_three_valued_iff oneIsOne () (forall_subconditions.mpr ⟨List.cons_ne_nil _ _, ?_⟩)
  intro c hc s hs
  rw [List.mem_singleton] at hc
  rw [hc, subconditions, List.mem_singleton] at hs
  rw [hs]
  exact ⟨le_refl 1, trivial⟩

/-- `x NOT IN (1, 1)` for an INT that is NULL. -/
def nullNotIn : Condition Unit :=
  inSet true (fun _ => @Item.value .ints none) fun _ => [.value (some (1 : Int32)), .value (some (1 : Int32))]

/-- The code keeps the row, and SQL does not. -/
theorem not_in_of_null : nullNotIn.getValue () = .ok true ∧ nullNotIn.sql () = none := ⟨rfl, rfl⟩

end Condition

end Miniob.Expr
