/-
  Expression trees as the optimizer sees them (src/observer/sql/expr/expression.h and expression.cpp).

  1. The constructors are the types that the rules look at; an expression of another type (arithmetic, an
     aggregate) is what it gives in a row (`other`).
  2. `getValue` is the row evaluation.  The children of a conjunction are only asked for their truth.
  3. How values are compared and cast, and what a subquery gives, are parameters (`Operations`).
-/
import Miniob.Common.ShortCircuit
import Miniob.Expr.Condition

namespace Miniob.Optimizer

open Miniob.Common Miniob.Expr

/-- The return codes that are not SUCCESS. -/
inductive RC where
  | internal
  | unimplemented
  | other (code : Int)
  deriving DecidableEq

/-- A pointer that is null is read. -/
inductive Fault where
  | nullExpression

/-- A `Value`; `O` are those that are not BOOLEANS. -/
inductive Value (O : Type) where
  | boolean (b : Bool)
  | other (v : O)

/-- `ρ` are the rows, `Q` the subqueries and lists of values, `A` the types that a cast goes to. -/
inductive Expression (ρ O Q A : Type) where
  | value (v : Value O)
  | field (read : ρ → Except RC (Value O))
  | cast (child : Expression ρ O Q A) (castType : A)
  | comparison (comp : CompOp) (left right : Expression ρ O Q A)
  /-- `IN` and `NOT IN`: a comparison with the subquery on the right. -/
  | inSet (negated : Bool) (left : Expression ρ O Q A) (right : Q)
  /-- `EXISTS` and `NOT EXISTS`: a comparison whose right side is null. -/
  | existsSet (negated : Bool) (left : Q)
  | conjunction (type : ConjunctionType) (children : List (Expression ρ O Q A))
  | subquery (query : Q)
  | other (read : ρ → Except RC (Value O))

variable {ρ O Q A : Type}

/-- What the evaluation of a row needs besides. -/
structure Operations (ρ O Q A : Type) where
  /-- `get_boolean` of the values that are not BOOLEANS. -/
  getBoolean : O → Bool
  /-- `compare_value`. -/
  compareValue : CompOp → Value O → Value O → Except RC Bool
  castTo : A → Value O → Except RC (Value O)
  /-- `get_value_from_subquery`. -/
  scalarQuery : Q → ρ → Except RC (Value O)
  /-- The value is in the subquery. -/
  inQuery : Value O → Q → ρ → Except RC Bool
  /-- The subquery has a row. -/
  existsQuery : Q → ρ → Except RC Bool
  /-- `get_value` of the subquery itself, which is not open. -/
  queryValue : Q → ρ → Except RC (Value O)

/-- What a conjunction stops at. -/
def stopValue : ConjunctionType → Bool
  | .and => false
  | .or => true

namespace Expression

/-- The subquery that the expression is. -/
def asQuery : Expression ρ O Q A → Option Q
  | subquery query => some query
  | _ => none

/-- `try_to_get_bool_constant`. -/
def boolConstant : Expression ρ O Q A → Option Bool
  | value (.boolean b) => some b
  | _ => none

end Expression

variable (ops : Operations ρ O Q A)

/-- `Value::get_boolean`. -/
def Operations.truth : Value O → Bool
  | .boolean b => b
  | .other v => ops.getBoolean v

mutual

/-- `get_value`. -/
def Expression.getValue (row : ρ) : Expression ρ O Q A → Except RC (Value O)
  | .value v => .ok v
  | .field read => read row
  | .cast child castType => (child.getValue row).bind (ops.castTo castType)
  | .comparison comp left right =>
    (match left.asQuery with
      | some query => ops.scalarQuery query row
      | none => left.getValue row).bind fun leftValue =>
    (match right.asQuery with
      | some query => ops.scalarQuery query row
      | none => right.getValue row).bind fun rightValue =>
    (ops.compareValue comp leftValue rightValue).map .boolean
  | .inSet negated left right =>
    (left.getValue row).bind fun leftValue => (ops.inQuery leftValue right row).map fun b => .boolean (b != negated)
  | .existsSet negated left => (ops.existsQuery left row).map fun b => .boolean (b != negated)
  | .conjunction type children =>
    if children.isEmpty then .ok (.boolean true)
    else (shortCircuit (stopValue type) (childrenTruth row children)).map .boolean
  | .subquery query => ops.queryValue query row
  | .other read => read row

/-- What the loop of a conjunction asks its children. -/
def childrenTruth (row : ρ) : List (Expression ρ O Q A) → List (Except RC Bool)
  | [] => []
  | c :: children => (c.getValue row).map ops.truth :: childrenTruth row children

end

/-- The value of a side of a comparison. -/
def Expression.sideValue (row : ρ) (e : Expression ρ O Q A) : Except RC (Value O) :=
  match e.asQuery with
  | some query => ops.scalarQuery query row
  | none => e.getValue ops row

/-- The truth of a value. -/
def Expression.truthValue (row : ρ) (e : Expression ρ O Q A) : Except RC Bool := (e.getValue ops row).map ops.truth

section

variable {ops : Operations ρ O Q A} {row : ρ}

theorem childrenTruth_eq (children : List (Expression ρ O Q A)) :
    childrenTruth ops row children = children.map (Expression.truthValue ops row) := by
  induction children with
  | nil => rfl
  | cons c children ih =>
    rw [childrenTruth, ih]
    rfl

theorem getValue_comparison (comp : CompOp) (left right : Expression ρ O Q A) :
    (Expression.comparison comp left right).getValue ops row = (left.sideValue ops row).bind fun leftValue =>
      (right.sideValue ops row).bind fun rightValue =>
        (ops.compareValue comp leftValue rightValue).map .boolean := by
  rw [Expression.getValue]
  rfl

theorem getValue_conjunction {type : ConjunctionType} {children : List (Expression ρ O Q A)}
    (h : type = .or → children ≠ []) : (Expression.conjunction type children).getValue ops row =
      (shortCircuit (stopValue type) (children.map (Expression.truthValue ops row))).map .boolean := by
  rw [Expression.getValue, childrenTruth_eq]
  cases children with
  | cons c children => rfl
  | nil =>
    cases type with
    | and => rfl
    | or => exact absurd rfl (h rfl)

theorem truth_boolean (x : Except RC Bool) : (x.map (@Value.boolean O)).map ops.truth = x := by
  cases x <;> rfl

/-- The truth of a conjunction. -/
theorem truthValue_conjunction {type : ConjunctionType} {children : List (Expression ρ O Q A)}
    (h : type = .or → children ≠ []) : (Expression.conjunction type children).truthValue ops row =
      shortCircuit (stopValue type) (children.map (Expression.truthValue ops row)) := by
  show ((Expression.conjunction type children).getValue ops row).map ops.truth = _
  rw [getValue_conjunction h, truth_boolean]

end

end Miniob.Optimizer
