/-
  GROUP BY, aggregates and HAVING (`GroupByPhysicalOperator` in
  src/observer/sql/operator/group_by_physical_operator.cpp).

  * The rows of the child are kept in a map whose keys are ordered by `GroupByKey::operator<`; HAVING
    then removes groups, and `next` gives one row for each group that is left.
  * Fields are looked up by their names in the rows of the child.  That can fail, for example if the table has an
    alias, and the operator does not look at the result: a key stays what it was, an aggregate is not given
    anything, a cell is UNDEFINED.
  * An aggregate expression is an object that `next` resets and accumulates as often as it occurs in the
    list; the aggregates of HAVING are objects of their own, and `check_or_get` reaches only those that
    are operands of the filter itself.
  * If no group is left, `deal_with_empty_table` gives a row if there is a COUNT and no field.  It does
    not ask why there is none.

  `Right` says what the operator should do, and `Good` when it does.

  Left out: VECTORS, and a child that fails.
-/
import Miniob.Common.Grouping
import Miniob.Expr.Aggregator
import Mathlib.Data.List.Perm.Subperm

namespace Miniob.Sql

open Miniob.Common Miniob.Expr

/-! ## Expressions -/

/-- A field; `ρ` are the rows.  The names that are looked up are the same for all rows, so a lookup finds a cell in
    each of them, or in none. -/
structure FieldExpr (ρ : Type) where
  /-- The column that the field is bound to. -/
  column : ρ → Value
  /-- The cell that `get_value` finds. -/
  cell : Option (ρ → Value)

/-- An aggregate function and its argument.  COUNT(*) reads the first cell. -/
structure AggregateExpr (ρ : Type) where
  type : AggregateType
  /-- The argument, with the columns that its fields are bound to. -/
  argument : ρ → Value
  /-- `get_value` of the argument, if all its fields are found. -/
  child : Option (ρ → Value)
  /-- The type of what is added up. -/
  number : NumberType
  typed : type = .sum ∨ type = .avg → ∀ c ∈ child, ∀ r, (c r).type = .number number

/-- What HAVING is made of: aggregates, each with its aggregator, fields, and other expressions.  An error is
    `none`. -/
inductive HavingExpr (ρ : Type) where
  | aggregate (expr : AggregateExpr ρ) (aggregator : Aggregator)
  | field (expr : FieldExpr ρ)
  | node (children : List (HavingExpr ρ)) (getValue : List (Option Value) → Option Value)

/-- The filter itself is a comparison or a conjunction. -/
structure HavingFilter (ρ : Type) where
  children : List (HavingExpr ρ)
  getValue : List (Option Value) → Option Bool

variable {ρ : Type}

/-- The cell of the field in the row, if it is found. -/
def FieldExpr.getValue (e : FieldExpr ρ) (r : ρ) : Option Value := e.cell.map fun cell => cell r

/-- The lookup finds the column. -/
def FieldExpr.Reads (e : FieldExpr ρ) (r : ρ) : Prop := e.getValue r = some (e.column r)

/-- `accumulate` gives the value of the argument to the aggregator, unless there is none. -/
def AggregateExpr.accumulate (e : AggregateExpr ρ) (aggregator : Aggregator) (tuple : ρ) : Aggregator :=
  match e.child with
  | none => aggregator
  | some child => aggregator.accumulate e.type (child tuple)

namespace HavingExpr

mutual

/-- The aggregates in an expression. -/
def aggregates : HavingExpr ρ → List (AggregateExpr ρ × Aggregator)
  | aggregate expr aggregator => [(expr, aggregator)]
  | field _ => []
  | node children _ => allAggregates children

def allAggregates : List (HavingExpr ρ) → List (AggregateExpr ρ × Aggregator)
  | [] => []
  | c :: children => c.aggregates ++ allAggregates children

end

mutual

/-- The fields outside of aggregates. -/
def fields : HavingExpr ρ → List (FieldExpr ρ)
  | aggregate _ _ => []
  | field expr => [expr]
  | node children _ => allFields children

def allFields : List (HavingExpr ρ) → List (FieldExpr ρ)
  | [] => []
  | c :: children => c.fields ++ allFields children

end

/-- The aggregates that are never given a value: `check_or_get` does not reach them, or their argument is not
    found. -/
def unfed : HavingExpr ρ → List (AggregateExpr ρ × Aggregator)
  | aggregate expr aggregator => if expr.child.isNone then [(expr, aggregator)] else []
  | field _ => []
  | node children _ => allAggregates children

mutual

/-- `get_value`, if the values of the aggregates and of the fields are given by `leaf` and `cell`. -/
def value (leaf : AggregateExpr ρ → Aggregator → Value) (cell : FieldExpr ρ → Option Value) :
    HavingExpr ρ → Option Value
  | aggregate expr aggregator => some (leaf expr aggregator)
  | field expr => cell expr
  | node children getValue => getValue (values leaf cell children)

def values (leaf : AggregateExpr ρ → Aggregator → Value) (cell : FieldExpr ρ → Option Value) :
    List (HavingExpr ρ) → List (Option Value)
  | [] => []
  | c :: children => c.value leaf cell :: values leaf cell children

end

/-- `expr_reset`. -/
def reset : HavingExpr ρ → HavingExpr ρ
  | aggregate expr aggregator => aggregate expr aggregator.reset
  | field expr => field expr
  | node children getValue => node children getValue

/-- `expr_accumulate`. -/
def accumulate (tuple : ρ) : HavingExpr ρ → HavingExpr ρ
  | aggregate expr aggregator => aggregate expr (expr.accumulate aggregator tuple)
  | field expr => field expr
  | node children getValue => node children getValue

end HavingExpr

namespace HavingFilter

/-- `check_or_get`: the function is called for the operands, and for the filter, which it leaves alone. -/
def checkOrGet (workerFunc : HavingExpr ρ → HavingExpr ρ) (f : HavingFilter ρ) : HavingFilter ρ :=
  { f with children := f.children.map workerFunc }

/-- `get_value` and `get_boolean`. -/
def holds (leaf : AggregateExpr ρ → Aggregator → Value) (cell : FieldExpr ρ → Option Value)
    (f : HavingFilter ρ) : Bool :=
  (f.getValue (HavingExpr.values leaf cell f.children)).getD false

/-- The aggregators after a group. -/
def pass (f : HavingFilter ρ) (group : List ρ) : HavingFilter ρ :=
  group.foldl (fun f tuple => f.checkOrGet (HavingExpr.accumulate tuple)) (f.checkOrGet HavingExpr.reset)

/-- The loop of `group_filter`; a group is a key and its tuples. -/
def groupFilter : HavingFilter ρ → List (ρ × List ρ) → List (ρ × List ρ)
  | _, [] => []
  | f, g :: groups =>
    let f := f.pass g.2
    if f.holds (fun expr aggregator => aggregator.evaluate expr.type)
        (fun e => g.2.getLast?.bind e.getValue) then
      g :: groupFilter f groups
    else groupFilter f groups

end HavingFilter

/-! ## The operator -/

/-- The operator; an aggregate expression is known by its number. -/
structure GroupByOperator (ρ : Type) where
  aggregateExpr : Nat → AggregateExpr ρ
  aggregateExpressions : List Nat
  groupbyFieldExpressions : List (FieldExpr ρ)
  fieldExpressions : List (FieldExpr ρ)
  havingFilter : Option (HavingFilter ρ)
  /-- Without GROUP BY there is an aggregate, no field outside of aggregates and no HAVING: `SelectStmt::create`
      refuses the statement otherwise. -/
  no_key : groupbyFieldExpressions = [] →
    aggregateExpressions ≠ [] ∧ fieldExpressions = [] ∧ havingFilter = none
  /-- The aggregates of HAVING that are never given a value are as they were made. -/
  unfed_fresh : ∀ f, havingFilter = some f → ∀ c ∈ f.children, ∀ p ∈ c.unfed, p.2 = Aggregator.fresh

structure GroupByState (ρ : Type) where
  groupTuples : List (ρ × List ρ)
  /-- The groups from `group_iter_` on. -/
  groupIter : List (ρ × List ρ)
  first : Bool
  aggregators : Nat → Aggregator

namespace GroupByOperator

/-- `GroupByKey::operator<`.  A lookup that fails leaves `left` and `right` as they are: UNDEFINED at first, for
    which `compare` is not implemented. -/
def keyLess : List (FieldExpr ρ) → Option (Value × Value) → ρ → ρ → Bool
  | [], _, _, _ => false
  | field :: fields, values, tuple, rhs =>
    let values := (field.cell.map fun cell => (cell tuple, cell rhs)).or values
    let result : Int := match values with
      | none => 2 ^ 31 - 1
      | some (left, right) => if left.isNull && right.isNull then 0 else left.compare right
    if result ≠ 0 then decide (result < 0) else keyLess fields values tuple rhs

/-- The order of the map. -/
def keyCompare (fields : List (FieldExpr ρ)) (left right : ρ) : Int :=
  if keyLess fields none left right then -1 else if keyLess fields none right left then 1 else 0

variable (op : GroupByOperator ρ)

def groupBy (tuples : List ρ) : List (ρ × List ρ) :=
  groupsOf (keyCompare op.groupbyFieldExpressions) tuples

def groupFilter (groups : List (ρ × List ρ)) : List (ρ × List ρ) :=
  match op.havingFilter with
  | none => groups
  | some f => f.groupFilter groups

/-- `open`, for the rows of the child. -/
def openOperator (aggregators : Nat → Aggregator) (tuples : List ρ) : GroupByState ρ :=
  let groups := op.groupFilter (op.groupBy tuples)
  { groupTuples := groups, groupIter := groups, first := true, aggregators := aggregators }

def evaluated (aggregators : Nat → Aggregator) : List Value :=
  op.aggregateExpressions.map fun i => (aggregators i).evaluate (op.aggregateExpr i).type

def haveCount : Bool := op.aggregateExpressions.any fun i =>
  (op.aggregateExpr i).type = .count ∨ (op.aggregateExpr i).type = .countStar

/-- `deal_with_empty_table`: a row, or the end. -/
def dealWithEmptyTable (aggregators : Nat → Aggregator) : Option (List (Option Value)) :=
  if !op.fieldExpressions.isEmpty then none
  else if !op.haveCount then none
  else some ((op.evaluated aggregators).map some)

def resetAll (aggregators : Nat → Aggregator) : Nat → Aggregator :=
  op.aggregateExpressions.foldl (fun s i => Function.update s i (s i).reset) aggregators

def accumulateTuple (aggregators : Nat → Aggregator) (tuple : ρ) : Nat → Aggregator :=
  op.aggregateExpressions.foldl (fun s i => Function.update s i
    ((op.aggregateExpr i).accumulate (s i) tuple)) aggregators

/-- `next`: a row, or the end.  A cell is `none` if it is UNDEFINED. -/
def next (s : GroupByState ρ) : Option (List (Option Value)) × GroupByState ρ :=
  if s.first ∧ s.groupTuples.isEmpty ∧ ¬ op.aggregateExpressions.isEmpty then
    (op.dealWithEmptyTable s.aggregators, { s with first := false })
  else
    let groupIter := if s.first then s.groupIter else s.groupIter.tail
    match groupIter with
    | [] => (none, { s with first := false, groupIter := [] })
    | g :: groups =>
      let aggregators := g.2.foldl op.accumulateTuple (op.resetAll s.aggregators)
      (some (op.fieldExpressions.map (fun field => field.getValue g.1) ++ (op.evaluated aggregators).map some),
        { s with first := false, groupIter := g :: groups, aggregators := aggregators })

/-- The rows that so many calls of `next` give. -/
def drain : Nat → GroupByState ρ → List (List (Option Value))
  | 0, _ => []
  | n + 1, s =>
    match op.next s with
    | (none, _) => []
    | (some row, s) => row :: drain n s

/-- The aggregators of an operator that was closed, or never opened.  AVG keeps its counter, which counts what it has
    been given. -/
def closed (counts : Nat → Int32) : Nat → Aggregator := fun i =>
  if (op.aggregateExpr i).child.isNone then Aggregator.fresh else ⟨none, counts i⟩

/-- The rows of the operator. -/
def output (counts : Nat → Int32) (tuples : List ρ) : List (List (Option Value)) :=
  op.drain (tuples.length + 2) (op.openOperator (op.closed counts) tuples)

end GroupByOperator

/-! ## What the operator should do -/

/-- The values that the aggregator is given for the tuples. -/
def AggregateExpr.found (e : AggregateExpr ρ) (given : List ρ) : List Value :=
  match e.child with
  | none => []
  | some child => given.map child

/-- The aggregate over a group. -/
def AggregateExpr.sql (e : AggregateExpr ρ) (group : List ρ) : Option Value :=
  e.type.sql e.number (group.map e.argument)

/-- The aggregator that is given the tuples follows SQL, and ends with the aggregate over the group. -/
def AggregateExpr.Right (e : AggregateExpr ρ) (given group : List ρ) : Prop :=
  e.type.Follows e.number (e.found given) ∧
    e.sql group = some (Aggregator.evaluate e.type (Aggregator.run e.type (e.found given)))

/-- The aggregates of an operand, each with the tuples of the group that it is given. -/
def HavingExpr.uses (group : List ρ) : HavingExpr ρ → List (AggregateExpr ρ × List ρ)
  | aggregate expr _ => [(expr, group)]
  | field _ => []
  | node children _ => (allAggregates children).map fun p => (p.1, [])

def HavingFilter.uses (f : HavingFilter ρ) (group : List ρ) : List (AggregateExpr ρ × List ρ) :=
  f.children.flatMap (HavingExpr.uses group)

/-- HAVING for a group, with the aggregates of SQL and the columns of the last tuple. -/
def HavingFilter.sqlHolds (f : HavingFilter ρ) (group : List ρ) : Bool :=
  f.holds (fun e _ => (e.sql group).getD Value.nullValue) (fun e => group.getLast?.map e.column)

namespace GroupByOperator

variable (op : GroupByOperator ρ)

def key (r : ρ) : List Value := op.groupbyFieldExpressions.map fun field => field.column r

/-- The groups: one for each key, or all tuples without GROUP BY. -/
def classes (tuples : List ρ) : List (List ρ) :=
  if op.groupbyFieldExpressions.isEmpty then [tuples] else classesOf op.key tuples

/-- The group satisfies HAVING. -/
def Holds (group : List ρ) : Prop := ∀ f ∈ op.havingFilter, f.sqlHolds group = true

/-- The row of a group: the fields of its first tuple, and the aggregates. -/
def sqlRow (group : List ρ) : List (Option Value) :=
  op.fieldExpressions.map (fun field => group.head?.map field.column) ++
    op.aggregateExpressions.map fun i => (op.aggregateExpr i).sql group

/-- All aggregates, each with the tuples of the group that it is given: once for each time it occurs. -/
def uses (group : List ρ) : List (AggregateExpr ρ × List ρ) :=
  (op.aggregateExpressions.map fun i => (op.aggregateExpr i,
      group.flatMap fun tuple => List.replicate (op.aggregateExpressions.count i) tuple)) ++
    match op.havingFilter with
    | none => []
    | some f => f.uses group

/-- All fields outside of aggregates, each with the tuple of the group in which it is looked up: the first one for the
    list, the last one for HAVING. -/
def reads (group : List ρ) : List (FieldExpr ρ × Option ρ) :=
  op.fieldExpressions.map (fun field => (field, group.head?)) ++
    match op.havingFilter with
    | none => []
    | some f => (HavingExpr.allFields f.children).map fun field => (field, group.getLast?)

open Classical in
/-- What the operator should do.

    * The comparison of keys is an order, as `std::map` needs it, and the groups are the classes of the
      keys.
    * Each aggregate, also of HAVING, is computed as in SQL over each group, and each field is the column that it
      is bound to.
    * There is one row for each group that satisfies HAVING. -/
structure Right (counts : Nat → Int32) (tuples : List ρ) : Prop where
  lawful : Lawful (keyCompare op.groupbyFieldExpressions) {r | r ∈ tuples}
  /-- The groups are the classes of the keys. -/
  groups : tuples ≠ [] → ((op.groupBy tuples).map Prod.snd).Perm (op.classes tuples)
  /-- The aggregates, in each class. -/
  aggregates : tuples ≠ [] → ∀ g ∈ op.classes tuples, ∀ u ∈ op.uses g, u.1.Right u.2 g
  /-- The fields that are read outside of the aggregates. -/
  fields : tuples ≠ [] → ∀ g ∈ op.classes tuples, ∀ u ∈ op.reads g, ∀ r ∈ u.2, u.1.Reads r
  /-- The rows that are given out, in any order. -/
  rows : (op.output counts tuples).Perm
    (((op.classes tuples).filter fun g => decide (op.Holds g)).map op.sqlRow)

/-! ## The condition for that -/

/-- * Keys compare equal if they are equal, and only then: all of them are found, and FLOATs are more than `EPSILON`
      apart, or equal.
    * The values of an aggregate fit (`Fits`), and it is given values that make the aggregate over the group: its
      argument is found, and each tuple is given once, or it makes no difference.
    * The fields outside of aggregates are found.
    * If no group is left, there is no COUNT in a list without fields, unless the child is empty and there is no GROUP
      BY; then there must be one, and AVG has no old counter. -/
structure Good (counts : Nat → Int32) (tuples : List ρ) : Prop where
  lawful : Lawful (keyCompare op.groupbyFieldExpressions) {r | r ∈ tuples}
  /-- Keys compare equal only if they are. -/
  exact : ∀ r ∈ tuples, ∀ s ∈ tuples, keyCompare op.groupbyFieldExpressions r s = 0 ↔ op.key r = op.key s
  /-- The aggregates fit in their type and take the argument they are written for. -/
  fits : tuples ≠ [] → ∀ g ∈ op.classes tuples, ∀ u ∈ op.uses g,
    u.1.type.Fits u.1.number (u.1.found u.2) ∧ u.1.type.sql u.1.number (u.1.found u.2) = u.1.sql g
  fields : tuples ≠ [] → ∀ g ∈ op.classes tuples, ∀ u ∈ op.reads g, ∀ r ∈ u.2, u.1.Reads r
  /-- If HAVING leaves no group, the operator must not make one up. -/
  none_left : ¬ (tuples = [] ∧ op.groupbyFieldExpressions = []) →
    (∀ g ∈ op.classes tuples, ¬ op.Holds g) → ¬ (op.fieldExpressions = [] ∧ op.haveCount = true)
  /-- A list of aggregates over no row is one row. -/
  empty : tuples = [] → op.groupbyFieldExpressions = [] → op.haveCount = true ∧
    ∀ i ∈ op.aggregateExpressions, (op.aggregateExpr i).type = .avg → (op.closed counts i).count = 0

end GroupByOperator

/-! ## One aggregator -/

/-- The two give the same results: only AVG reads the counter. -/
def SameAs (type : AggregateType) (a b : Aggregator) : Prop :=
  a.value = b.value ∧ (type = .avg → a.count = b.count)

section Aggregators

variable {type : AggregateType} {a b : Aggregator}

/-- Aggregators that give the same result do so behind the next value. -/
theorem SameAs.accumulate (h : SameAs type a b) (v : Value) :
    SameAs type (a.accumulate type v) (b.accumulate type v) := by
  obtain ⟨av, ac⟩ := a
  obtain ⟨bv, bc⟩ := b
  obtain ⟨rfl, hcount⟩ := h
  unfold SameAs Aggregator.accumulate
  cases type with
  | avg =>
    obtain rfl := hcount rfl
    exact ⟨rfl, fun _ => rfl⟩
  | countStar => cases av <;> exact ⟨rfl, fun h => by cases h⟩
  | _ => exact ⟨rfl, fun h => by cases h⟩

theorem SameAs.evaluate (h : SameAs type a b) : a.evaluate type = b.evaluate type := by
  unfold Aggregator.evaluate
  cases type with
  | avg => rw [h.1, h.2 rfl]
  | _ => rw [h.1]

/-- The first value makes the counter start again. -/
theorem sameAs_first (c : Int32) (v : Value) :
    SameAs type (Aggregator.accumulate type ⟨none, c⟩ v) (Aggregator.accumulate type Aggregator.fresh v) := by
  cases type <;> exact ⟨rfl, fun h => by cases h <;> rfl⟩

/-- An aggregator that is reset and given some values. -/
theorem evaluate_reset (a : Aggregator) {vs : List Value} (hne : vs ≠ []) :
    Aggregator.evaluate type (vs.foldl (Aggregator.accumulate type) a.reset) =
      Aggregator.evaluate type (Aggregator.run type vs) := by
  cases vs with
  | nil => exact absurd rfl hne
  | cons v vs =>
    have hsame : ∀ (vs : List Value) {a b : Aggregator}, SameAs type a b →
        SameAs type (vs.foldl (Aggregator.accumulate type) a)
          (vs.foldl (Aggregator.accumulate type) b) := by
      intro vs
      induction vs with
      | nil => exact fun h => h
      | cons v vs ih => exact fun h => ih (h.accumulate v)
    exact (hsame vs (sameAs_first a.count v)).evaluate

end Aggregators

/-- An aggregate is right if its values fit and are those of the group. -/
theorem AggregateExpr.right_iff (e : AggregateExpr ρ) (given group : List ρ) :
    e.Right given group ↔
      e.type.Fits e.number (e.found given) ∧ e.type.sql e.number (e.found given) = e.sql group := by
  have htyped : e.type = .sum ∨ e.type = .avg → ∀ v ∈ e.found given, v.type = .number e.number := by
    intro htype v hv
    unfold found at hv
    cases hchild : e.child with
    | none =>
      rw [hchild] at hv
      cases hv
    | some child =>
      rw [hchild] at hv
      obtain ⟨r, -, rfl⟩ := List.mem_map.mp hv
      exact e.typed htype child hchild r
  have hfollows := follows_iff (e.found given) htyped
  unfold AggregateExpr.Right
  rw [hfollows]
  refine and_congr_right fun hfits => ?_
  have hgiven := (hfollows.mpr hfits _ (List.prefix_refl _)).1
  rw [← hgiven]
  exact eq_comm

/-! ## An aggregate and its tuples -/

section Given

variable {e : AggregateExpr ρ} {a : Aggregator} {given : List ρ}

/-- The aggregator is given the values that are found. -/
theorem foldl_accumulate (e : AggregateExpr ρ) (a : Aggregator) (given : List ρ) :
    given.foldl e.accumulate a = (e.found given).foldl (Aggregator.accumulate e.type) a := by
  unfold AggregateExpr.found
  cases hchild : e.child with
  | none =>
    induction given with
    | nil => rfl
    | cons tuple given ih =>
      rw [List.foldl_cons, AggregateExpr.accumulate, hchild]
      exact ih
  | some child =>
    induction given generalizing a with
    | nil => rfl
    | cons tuple given ih =>
      rw [List.foldl_cons, ih, AggregateExpr.accumulate, hchild]
      rfl

/-- An aggregator that has not been given a value if it finds none. -/
def Unfed (e : AggregateExpr ρ) (a : Aggregator) : Prop := e.child = none → a.count = 0

theorem Unfed.reset (h : Unfed e a) : Unfed e a.reset := h

theorem Unfed.foldl (h : Unfed e a) (given : List ρ) : Unfed e (given.foldl e.accumulate a) := by
  intro hchild
  rw [foldl_accumulate, AggregateExpr.found, hchild]
  exact h hchild

/-- **An aggregator that is reset and given tuples** has what a new one would have. -/
theorem evaluate_given (h : Unfed e a) (hne : given ≠ []) :
    Aggregator.evaluate e.type (given.foldl e.accumulate a.reset) =
      Aggregator.evaluate e.type (Aggregator.run e.type (e.found given)) := by
  rw [foldl_accumulate]
  cases hchild : e.child with
  | none =>
    have hfound : e.found given = [] := by
      unfold AggregateExpr.found
      rw [hchild]
    have hfresh : a.reset = Aggregator.fresh := by
      obtain ⟨value, count⟩ := a
      obtain rfl : count = 0 := h hchild
      rfl
    rw [hfound, hfresh]
    rfl
  | some child =>
    refine evaluate_reset a ?_
    unfold AggregateExpr.found
    rw [hchild]
    exact fun hnil => hne (List.map_eq_nil_iff.mp hnil)

end Given

/-! ## HAVING -/

section Having

variable {f : HavingFilter ρ} {group : List ρ}

/-- The values of expressions, one after the other. -/
theorem values_eq (leaf : AggregateExpr ρ → Aggregator → Value) (cell : FieldExpr ρ → Option Value)
    (children : List (HavingExpr ρ)) :
    HavingExpr.values leaf cell children = children.map (HavingExpr.value leaf cell) := by
  induction children with
  | nil => rfl
  | cons c children ih => rw [HavingExpr.values, ih, List.map_cons]

/-- The value depends on the values of the aggregates and of the fields only. -/
theorem value_congr {leaf leaf' : AggregateExpr ρ → Aggregator → Value} {cell cell' : FieldExpr ρ → Option Value}
    (c : HavingExpr ρ) (h : ∀ p ∈ c.aggregates, leaf p.1 p.2 = leaf' p.1 p.2)
    (hcell : ∀ e ∈ c.fields, cell e = cell' e) : c.value leaf cell = c.value leaf' cell' := by
  refine @HavingExpr.rec ρ
    (fun c => (∀ p ∈ c.aggregates, leaf p.1 p.2 = leaf' p.1 p.2) → (∀ e ∈ c.fields, cell e = cell' e) →
      c.value leaf cell = c.value leaf' cell')
    (fun children => (∀ p ∈ HavingExpr.allAggregates children, leaf p.1 p.2 = leaf' p.1 p.2) →
      (∀ e ∈ HavingExpr.allFields children, cell e = cell' e) →
      HavingExpr.values leaf cell children = HavingExpr.values leaf' cell' children) ?_ ?_ ?_ ?_ ?_ c h hcell
  · intro expr aggregator h _
    exact congrArg some (h (expr, aggregator) (List.mem_singleton_self _))
  · intro expr _ hcell
    exact hcell expr (List.mem_singleton_self _)
  · intro children getValue ih h hcell
    rw [HavingExpr.value, HavingExpr.value, ih h hcell]
  · exact fun _ _ => rfl
  · intro c children hc hchildren h hcell
    rw [HavingExpr.allAggregates, List.forall_mem_append] at h
    rw [HavingExpr.allFields, List.forall_mem_append] at hcell
    rw [HavingExpr.values, HavingExpr.values, hc h.1 hcell.1, hchildren h.2 hcell.2]

/-- The fields of a child are fields of HAVING. -/
theorem allFields_mem {children : List (HavingExpr ρ)} {c : HavingExpr ρ} (hc : c ∈ children) {e : FieldExpr ρ}
    (he : e ∈ c.fields) : e ∈ HavingExpr.allFields children := by
  induction children with
  | nil => cases hc
  | cons c' children ih =>
    rw [HavingExpr.allFields, List.mem_append]
    rcases List.mem_cons.mp hc with rfl | hc
    · exact Or.inl he
    · exact Or.inr (ih hc)

/-- An operand after the aggregates were reset and given some tuples. -/
def passed (group : List ρ) (c : HavingExpr ρ) : HavingExpr ρ :=
  group.foldl (fun c tuple => c.accumulate tuple) c.reset

/-- What a group does to HAVING is done to each operand, and the value is not touched. -/
theorem pass_children (f : HavingFilter ρ) (group : List ρ) :
    (f.pass group).children = f.children.map (passed group) ∧ (f.pass group).getValue = f.getValue := by
  have hloop : ∀ (group : List ρ) (f : HavingFilter ρ),
      (group.foldl (fun f tuple => f.checkOrGet (HavingExpr.accumulate tuple)) f).children =
          f.children.map (fun c => group.foldl (fun c tuple => c.accumulate tuple) c) ∧
        (group.foldl (fun f tuple => f.checkOrGet (HavingExpr.accumulate tuple)) f).getValue =
          f.getValue := by
    intro group
    induction group with
    | nil => exact fun f => ⟨List.map_id'' (fun _ => rfl) _ |>.symm, rfl⟩
    | cons tuple group ih =>
      intro f
      obtain ⟨hchildren, hgetValue⟩ := ih (f.checkOrGet (HavingExpr.accumulate tuple))
      exact ⟨hchildren.trans List.map_map, hgetValue⟩
  obtain ⟨hchildren, hgetValue⟩ := hloop group (f.checkOrGet HavingExpr.reset)
  exact ⟨hchildren.trans List.map_map, hgetValue⟩

/-- An aggregate is reset and gets the rows of the group. -/
theorem passed_aggregate (group : List ρ) (expr : AggregateExpr ρ) (aggregator : Aggregator) :
    passed group (.aggregate expr aggregator) = .aggregate expr (group.foldl expr.accumulate aggregator.reset) := by
  unfold passed
  induction group using List.reverseRecOn with
  | nil => rfl
  | append_singleton group tuple ih =>
    rw [List.foldl_append, ih, List.foldl_append]
    rfl

/-- A field keeps nothing of a group. -/
theorem passed_field (group : List ρ) (expr : FieldExpr ρ) : passed group (.field expr) = .field expr := by
  unfold passed
  induction group using List.reverseRecOn with
  | nil => rfl
  | append_singleton group tuple ih =>
    rw [List.foldl_append, ih]
    rfl

/-- Below the operands nothing is visited. -/
theorem passed_node (group : List ρ) (children : List (HavingExpr ρ))
    (getValue : List (Option Value) → Option Value) :
    passed group (.node children getValue) = .node children getValue := by
  unfold passed
  induction group using List.reverseRecOn with
  | nil => rfl
  | append_singleton group tuple ih =>
    rw [List.foldl_append, ih]
    rfl

/-- The aggregators of an operand that are never given a value. -/
def UnfedFresh (c : HavingExpr ρ) : Prop := ∀ p ∈ c.unfed, p.2 = Aggregator.fresh

/-- An aggregate that nobody feeds is new. -/
theorem UnfedFresh.unfed {expr : AggregateExpr ρ} {aggregator : Aggregator}
    (h : UnfedFresh (.aggregate expr aggregator)) : Unfed expr aggregator := by
  intro hchild
  have hmem : (expr, aggregator) ∈ HavingExpr.unfed (.aggregate expr aggregator) := by
    rw [HavingExpr.unfed, hchild]
    exact List.mem_singleton_self _
  rw [show aggregator = _ from h _ hmem]
  rfl

/-- It still is when a group has gone by. -/
theorem UnfedFresh.passed {c : HavingExpr ρ} (h : UnfedFresh c) (group : List ρ) : UnfedFresh (passed group c) := by
  cases c with
  | aggregate expr aggregator =>
    rw [passed_aggregate]
    intro p hp
    rw [HavingExpr.unfed] at hp
    split at hp
    · rename_i hchild
      rw [List.mem_singleton.mp hp, foldl_accumulate, AggregateExpr.found, Option.isNone_iff_eq_none.mp hchild]
      have hfresh : aggregator = Aggregator.fresh := by
        refine h (expr, aggregator) ?_
        rw [HavingExpr.unfed, if_pos hchild]
        exact List.mem_singleton_self _
      rw [hfresh]
      rfl
    · cases hp
  | field expr =>
    rw [passed_field]
    exact h
  | node children getValue =>
    rw [passed_node]
    exact h

/-- After the pass the filter has the value it should have. -/
theorem holds_pass (hne : group ≠ []) (hfresh : ∀ c ∈ f.children, UnfedFresh c)
    (huses : ∀ u ∈ f.uses group, u.1.Right u.2 group)
    (hfields : ∀ e ∈ HavingExpr.allFields f.children, ∀ r ∈ group.getLast?, e.Reads r) :
    (f.pass group).holds (fun expr aggregator => aggregator.evaluate expr.type)
      (fun e => group.getLast?.bind e.getValue) = f.sqlHolds group := by
  unfold HavingFilter.sqlHolds HavingFilter.holds
  obtain ⟨hchildren, hgetValue⟩ := pass_children f group
  rw [hchildren, hgetValue, values_eq, values_eq, List.map_map]
  refine congrArg (fun vs => (f.getValue vs).getD false) (List.map_congr_left fun c hc => ?_)
  have hright : ∀ u ∈ c.uses group, u.1.Right u.2 group := fun u hu =>
    huses u (List.mem_flatMap.mpr ⟨c, hc, hu⟩)
  have hcell : ∀ e ∈ c.fields, group.getLast?.bind e.getValue = group.getLast?.map e.column := by
    intro e he
    cases hlast : group.getLast? with
    | none => rfl
    | some r => exact hfields e (allFields_mem hc he) r hlast
  cases c with
  | aggregate expr aggregator =>
    have hexpr := (hright (expr, group) (List.mem_singleton_self _)).2
    show (passed group (.aggregate expr aggregator)).value _ _ =
      some ((expr.sql group).getD Value.nullValue)
    rw [passed_aggregate, hexpr, Option.getD_some]
    exact congrArg some (evaluate_given (hfresh _ hc).unfed hne)
  | field expr =>
    show (passed group (.field expr)).value _ _ = _
    rw [passed_field]
    exact hcell expr (List.mem_singleton_self _)
  | node children getValue =>
    show (passed group (.node children getValue)).value _ _ = _
    rw [passed_node]
    refine value_congr _ (fun p hp => ?_) hcell
    have hp : p ∈ HavingExpr.allAggregates children := hp
    have hexpr := (hright (p.1, []) (List.mem_map_of_mem hp)).2
    have hnone : p.1.found [] = [] := by
      unfold AggregateExpr.found
      cases p.1.child <;> rfl
    rw [hexpr, hfresh _ hc p hp, hnone]
    rfl

/-- A group that has gone by does not change what is computed over the next one. -/
theorem uses_pass (f : HavingFilter ρ) (group group' : List ρ) :
    (f.pass group').uses group = f.uses group := by
  unfold HavingFilter.uses
  rw [(pass_children f group').1, List.flatMap_map]
  refine List.flatMap_congr fun c _ => ?_
  cases c with
  | aggregate expr aggregator =>
    rw [passed_aggregate]
    rfl
  | field expr => rw [passed_field]
  | node children getValue => rw [passed_node]

/-- Nor which fields are read. -/
theorem fields_pass (f : HavingFilter ρ) (group : List ρ) :
    HavingExpr.allFields (f.pass group).children = HavingExpr.allFields f.children := by
  rw [(pass_children f group).1]
  induction f.children with
  | nil => rfl
  | cons c children ih =>
    rw [List.map_cons, HavingExpr.allFields, HavingExpr.allFields, ih]
    congr 1
    cases c with
    | aggregate expr aggregator =>
      rw [passed_aggregate]
      rfl
    | field expr => rw [passed_field]
    | node children getValue => rw [passed_node]

theorem unfedFresh_pass (f : HavingFilter ρ) (group : List ρ) (hfresh : ∀ c ∈ f.children, UnfedFresh c) :
    ∀ c ∈ (f.pass group).children, UnfedFresh c := by
  rw [(pass_children f group).1, List.forall_mem_map]
  exact fun c hc => (hfresh c hc).passed group

/-- What the filter should be is not changed by a pass. -/
theorem sqlHolds_pass (f : HavingFilter ρ) (group group' : List ρ) :
    (f.pass group').sqlHolds group = f.sqlHolds group := by
  unfold HavingFilter.sqlHolds HavingFilter.holds
  obtain ⟨hchildren, hgetValue⟩ := pass_children f group'
  rw [hchildren, hgetValue, values_eq, values_eq, List.map_map]
  refine congrArg (fun vs => (f.getValue vs).getD false) (List.map_congr_left fun c _ => ?_)
  cases c with
  | aggregate expr aggregator =>
    show (passed group' (.aggregate expr aggregator)).value _ _ = _
    rw [passed_aggregate]
    rfl
  | field expr =>
    show (passed group' (.field expr)).value _ _ = _
    rw [passed_field]
  | node children getValue =>
    show (passed group' (.node children getValue)).value _ _ = _
    rw [passed_node]

/-- `group_filter` leaves the groups that satisfy HAVING. -/
theorem groupFilter_eq (groups : List (ρ × List ρ)) (hne : ∀ g ∈ groups, g.2 ≠ [])
    (hfresh : ∀ c ∈ f.children, UnfedFresh c)
    (huses : ∀ g ∈ groups, ∀ u ∈ f.uses g.2, u.1.Right u.2 g.2)
    (hfields : ∀ g ∈ groups, ∀ e ∈ HavingExpr.allFields f.children, ∀ r ∈ g.2.getLast?, e.Reads r) :
    f.groupFilter groups = groups.filter fun g => f.sqlHolds g.2 := by
  induction groups generalizing f with
  | nil => rfl
  | cons g groups ih =>
    obtain ⟨hg, hne⟩ := List.forall_mem_cons.mp hne
    obtain ⟨hug, huses⟩ := List.forall_mem_cons.mp huses
    obtain ⟨hfg, hfields⟩ := List.forall_mem_cons.mp hfields
    have ih := @ih (f.pass g.2) hne (unfedFresh_pass f g.2 hfresh)
      (fun g' hg' u hu => huses g' hg' u (uses_pass f g'.2 g.2 ▸ hu))
      (fun g' hg' => fields_pass f g.2 ▸ hfields g' hg')
    unfold HavingFilter.groupFilter
    dsimp only
    rw [holds_pass hg hfresh hug hfg, ih, List.filter_cons]
    simp only [sqlHolds_pass]

end Having

/-! ## The rows -/

namespace GroupByOperator

section Rows

variable (op : GroupByOperator ρ) {counts : Nat → Int32} {tuples group : List ρ}

/-- Only the aggregates of the list are reset. -/
theorem resetAll_apply (aggregators : Nat → Aggregator) (i : Nat) :
    op.resetAll aggregators i = if i ∈ op.aggregateExpressions then (aggregators i).reset else aggregators i := by
  unfold resetAll
  generalize op.aggregateExpressions = l
  induction l generalizing aggregators with
  | nil => rfl
  | cons j l ih =>
    rw [List.foldl_cons, ih]
    by_cases hij : i = j
    · subst hij
      simp [Aggregator.reset]
    · simp [hij]

/-- An aggregate is given the tuple as often as it occurs in the list. -/
theorem accumulateTuple_apply (aggregators : Nat → Aggregator) (tuple : ρ) (i : Nat) :
    op.accumulateTuple aggregators tuple i = (List.replicate (op.aggregateExpressions.count i) tuple).foldl
      (op.aggregateExpr i).accumulate (aggregators i) := by
  unfold accumulateTuple
  generalize op.aggregateExpressions = l
  induction l generalizing aggregators with
  | nil => rfl
  | cons j l ih =>
    rw [List.foldl_cons, ih]
    by_cases hij : j = i
    · subst hij
      rw [List.count_cons_self, Function.update_self]
      rfl
    · rw [List.count_cons_of_ne hij, Function.update_of_ne (Ne.symm hij)]

theorem accumulateTuples_apply (aggregators : Nat → Aggregator) (group : List ρ) (i : Nat) :
    group.foldl op.accumulateTuple aggregators i =
      (group.flatMap fun tuple => List.replicate (op.aggregateExpressions.count i) tuple).foldl
        (op.aggregateExpr i).accumulate (aggregators i) := by
  induction group generalizing aggregators with
  | nil => rfl
  | cons tuple group ih => rw [List.foldl_cons, ih, accumulateTuple_apply, List.flatMap_cons, List.foldl_append]

/-- No aggregator counts what it was not given. -/
def AllUnfed (aggregators : Nat → Aggregator) : Prop := ∀ i, Unfed (op.aggregateExpr i) (aggregators i)

theorem allUnfed_closed : op.AllUnfed (op.closed counts) := by
  intro i hchild
  unfold closed
  rw [hchild]
  rfl

theorem AllUnfed.next {op : GroupByOperator ρ} {aggregators : Nat → Aggregator} (h : op.AllUnfed aggregators) :
    op.AllUnfed (group.foldl op.accumulateTuple (op.resetAll aggregators)) := by
  intro i
  rw [accumulateTuples_apply, resetAll_apply]
  split
  · exact (h i).reset.foldl _
  · exact (h i).foldl _

/-- The aggregates that `next` computes for a group. -/
theorem evaluated_group {aggregators : Nat → Aggregator} (hunfed : op.AllUnfed aggregators) (hne : group ≠ [])
    (huses : ∀ u ∈ op.uses group, u.1.Right u.2 group) :
    (op.evaluated (group.foldl op.accumulateTuple (op.resetAll aggregators))).map some =
      op.aggregateExpressions.map fun i => (op.aggregateExpr i).sql group := by
  unfold evaluated
  rw [List.map_map]
  refine List.map_congr_left fun i hi => ?_
  have hright : (op.aggregateExpr i).Right _ group := huses (op.aggregateExpr i, _)
    (List.mem_append_left _ (List.mem_map_of_mem hi))
  have hgiven : (group.flatMap fun tuple => List.replicate (op.aggregateExpressions.count i) tuple) ≠ [] := by
    obtain ⟨tuple, rest, rfl⟩ := List.exists_cons_of_ne_nil hne
    have hpos := List.count_pos_iff.mpr hi
    simp [List.replicate_eq_nil_iff]
    omega
  rw [hright.2]
  show some (Aggregator.evaluate _ (group.foldl op.accumulateTuple (op.resetAll aggregators) i)) = _
  rw [accumulateTuples_apply, resetAll_apply, if_pos hi]
  exact congrArg some (evaluate_given (hunfed i) hgiven)

/-- The row of a group. -/
theorem next_row {aggregators : Nat → Aggregator} (hunfed : op.AllUnfed aggregators) {k : ρ}
    (hhead : group.head? = some k) (huses : ∀ u ∈ op.uses group, u.1.Right u.2 group)
    (hreads : ∀ u ∈ op.reads group, ∀ r ∈ u.2, u.1.Reads r) :
    op.fieldExpressions.map (fun field => field.getValue k) ++
      (op.evaluated (group.foldl op.accumulateTuple (op.resetAll aggregators))).map some = op.sqlRow group := by
  have hne : group ≠ [] := by
    rintro rfl
    cases hhead
  rw [evaluated_group op hunfed hne huses]
  unfold sqlRow
  congr 1
  refine List.map_congr_left fun field hfield => ?_
  rw [hhead]
  exact hreads (field, group.head?) (List.mem_append_left _ (List.mem_map_of_mem hfield)) k hhead

/-- A call of `next` that goes on to a group. -/
theorem next_group {s : GroupByState ρ} {g : ρ × List ρ} {groups : List (ρ × List ρ)}
    (hiter : (if s.first then s.groupIter else s.groupIter.tail) = g :: groups)
    (htuples : s.first = true → s.groupTuples ≠ []) : op.next s =
      (some (op.fieldExpressions.map (fun field => field.getValue g.1) ++
        (op.evaluated (g.2.foldl op.accumulateTuple (op.resetAll s.aggregators))).map some),
        { s with
          first := false
          groupIter := g :: groups
          aggregators := g.2.foldl op.accumulateTuple (op.resetAll s.aggregators) }) := by
  unfold next
  rw [if_neg, hiter]
  rintro ⟨hfirst, hempty, -⟩
  exact htuples hfirst (List.isEmpty_iff.mp hempty)

/-- The groups behind the current one are given one after the other. -/
theorem drain_groups {groups : List (ρ × List ρ)} (hhead : ∀ g ∈ groups, g.2.head? = some g.1)
    (huses : ∀ g ∈ groups, ∀ u ∈ op.uses g.2, u.1.Right u.2 g.2)
    (hreads : ∀ g ∈ groups, ∀ u ∈ op.reads g.2, ∀ r ∈ u.2, u.1.Reads r) :
    ∀ {n : Nat} {s : GroupByState ρ}, groups.length < n → op.AllUnfed s.aggregators →
      (if s.first then s.groupIter else s.groupIter.tail) = groups →
      (s.first = true → s.groupTuples ≠ []) → op.drain n s = groups.map fun g => op.sqlRow g.2 := by
  induction groups with
  | nil =>
    intro n s hn _ hiter htuples
    obtain ⟨n, rfl⟩ : ∃ m, n = m + 1 := Nat.exists_eq_add_of_lt hn |>.imp fun m h => by simpa using h
    have hnext : (op.next s).1 = none := by
      unfold next
      rw [if_neg, hiter]
      rintro ⟨hfirst, hempty, -⟩
      exact htuples hfirst (List.isEmpty_iff.mp hempty)
    unfold drain
    rcases hs : op.next s with ⟨row, s'⟩
    rw [hs] at hnext
    obtain rfl := hnext
    rfl
  | cons g groups ih =>
    intro n s hn hunfed hiter htuples
    obtain ⟨n, rfl⟩ : ∃ m, n = m + 1 := ⟨n - 1, by omega⟩
    obtain ⟨hg, hhead⟩ := List.forall_mem_cons.mp hhead
    obtain ⟨hug, huses⟩ := List.forall_mem_cons.mp huses
    obtain ⟨hrg, hreads⟩ := List.forall_mem_cons.mp hreads
    unfold drain
    rw [next_group op hiter htuples]
    simp only [List.length_cons] at hn
    show _ :: op.drain n _ = _
    rw [List.map_cons, next_row op hunfed hg hug hrg,
      ih hhead huses hreads (by omega) hunfed.next rfl fun h => absurd h Bool.false_ne_true]

/-- No group is left. -/
theorem drain_nil {n : Nat} {s : GroupByState ρ} (hn : 1 < n) (hfirst : s.first = true)
    (hiter : s.groupIter = []) (htuples : s.groupTuples = []) :
    op.drain n s = if op.fieldExpressions = [] ∧ op.haveCount = true
      then [(op.evaluated s.aggregators).map some] else [] := by
  obtain ⟨n, rfl⟩ : ∃ m, n = m + 2 := ⟨n - 2, by omega⟩
  by_cases haggs : op.aggregateExpressions = []
  · have hcount : op.haveCount = false := by
      unfold haveCount
      rw [haggs]
      rfl
    have hnext : op.next s = (none, { s with first := false, groupIter := [] }) := by
      unfold next
      simp [hfirst, hiter, haggs]
    unfold drain
    rw [hnext, if_neg (by simp [hcount])]
  · have hnext : op.next s = (op.dealWithEmptyTable s.aggregators, { s with first := false }) := by
      unfold next
      simp [hfirst, htuples, haggs]
    have hend : op.drain (n + 1) { s with first := false } = [] := by
      have hnext : op.next { s with first := false } = (none, { s with first := false, groupIter := [] }) := by
        unfold next
        simp [hiter]
      unfold drain
      rw [hnext]
    unfold drain
    rw [hnext]
    unfold dealWithEmptyTable
    by_cases hfields : op.fieldExpressions = []
    · cases hcount : op.haveCount with
      | false => simp [hfields]
      | true => simp [hfields, hend]
    · simp [hfields]

/-- AVG without a value divides by its counter. -/
theorem divide_count (c : Int32) :
    FloatType.divide (.ints 0) (.ints c) = .floats Index.floatNull ↔ c = 0 := by
  have heps : (0 : ℚ) < Index.epsilon ∧ Index.epsilon < 1 := by
    unfold Index.epsilon
    norm_num
  have hzero : (Number.ints 0).getFloat = 0 := rfl
  unfold FloatType.divide
  constructor
  · intro h
    by_contra hc
    have hc : c.toInt ≠ 0 := fun hz => hc (Int32.toInt_inj.mp hz)
    rw [if_neg] at h
    · rw [hzero, zero_div] at h
      have : (0 : ℚ) = Index.floatNull := Number.floats.inj h
      unfold Index.floatNull at this
      norm_num at this
    · rintro ⟨hlo, hhi⟩
      have hlo : -(1 : ℚ) < c.toInt := lt_trans (by linarith [heps.2]) hlo
      have hhi : (c.toInt : ℚ) < 1 := lt_trans hhi heps.2
      have hlo : -1 < c.toInt := by exact_mod_cast hlo
      have hhi : c.toInt < 1 := by exact_mod_cast hhi
      omega
  · rintro rfl
    rw [if_pos]
    rw [hzero]
    exact ⟨by linarith [heps.1], heps.1⟩

/-- The aggregates of an operator that was not given a tuple. -/
theorem evaluated_closed : (op.evaluated (op.closed counts)).map some =
      op.aggregateExpressions.map (fun i => (op.aggregateExpr i).sql []) ↔
    ∀ i ∈ op.aggregateExpressions, (op.aggregateExpr i).type = .avg → (op.closed counts i).count = 0 := by
  unfold evaluated
  rw [List.map_map, List.map_inj_left]
  refine forall₂_congr fun i _ => ?_
  have hvalue : op.closed counts i = ⟨none, (op.closed counts i).count⟩ := by
    unfold closed
    split <;> rfl
  show some (Aggregator.evaluate (op.aggregateExpr i).type (op.closed counts i)) =
    (op.aggregateExpr i).type.sql (op.aggregateExpr i).number [] ↔ _
  rw [hvalue]
  cases htype : (op.aggregateExpr i).type with
  | avg =>
    have hsql : AggregateType.avg.sql (op.aggregateExpr i).number [] =
      some (.number (.floats Index.floatNull)) := rfl
    have hcode : Aggregator.evaluate .avg ⟨none, (op.closed counts i).count⟩ =
      .number (FloatType.divide (.ints 0) (.ints (op.closed counts i).count)) := rfl
    rw [hsql, hcode, Option.some.injEq, Value.number.injEq, divide_count]
    simp
  | _ => simp [Aggregator.evaluate, AggregateType.sql, nonNull, best]

/-! ## The groups -/

/-- The groups are the classes exactly if equal comparison means equal keys. -/
theorem groupBy_perm_iff (hlawful : Lawful (keyCompare op.groupbyFieldExpressions) {r | r ∈ tuples})
    (hne : tuples ≠ []) : ((op.groupBy tuples).map Prod.snd).Perm (op.classes tuples) ↔
      ∀ r ∈ tuples, ∀ s ∈ tuples, keyCompare op.groupbyFieldExpressions r s = 0 ↔ op.key r = op.key s := by
  have hclasses : (op.classes tuples).Perm (classesOf op.key tuples) := by
    unfold classes
    split
    · rename_i hfields
      have hkey : ∀ r, op.key r = [] := fun r => by
        unfold key
        rw [List.isEmpty_iff.mp hfields]
        rfl
      refine (List.perm_ext_iff_of_nodup (List.nodup_singleton _) (nodup_classesOf _)).mpr fun g => ?_
      rw [mem_classesOf, List.mem_singleton]
      simp only [hkey, decide_true, List.filter_true]
      constructor
      · rintro rfl
        obtain ⟨x, hx⟩ := List.exists_mem_of_ne_nil g hne
        exact ⟨x, hx, rfl⟩
      · rintro ⟨x, -, h⟩
        exact h
    · exact List.Perm.refl _
  rw [← groups_perm_classes_iff hlawful]
  exact ⟨fun h => h.trans hclasses, fun h => h.trans hclasses.symm⟩

open Classical in
/-- The groups that HAVING leaves. -/
theorem groupFilter_groups {groups : List (ρ × List ρ)} (hne : ∀ g ∈ groups, g.2 ≠ [])
    (huses : ∀ g ∈ groups, ∀ u ∈ op.uses g.2, u.1.Right u.2 g.2)
    (hreads : ∀ g ∈ groups, ∀ u ∈ op.reads g.2, ∀ r ∈ u.2, u.1.Reads r) :
    op.groupFilter groups = groups.filter fun g => decide (op.Holds g.2) := by
  unfold groupFilter Holds
  cases hf : op.havingFilter with
  | none => simp
  | some f =>
    have huses : ∀ g ∈ groups, ∀ u ∈ f.uses g.2, u.1.Right u.2 g.2 := by
      intro g hg u hu
      refine huses g hg u (List.mem_append_right _ ?_)
      rw [hf]
      exact hu
    have hfields : ∀ g ∈ groups, ∀ e ∈ HavingExpr.allFields f.children, ∀ r ∈ g.2.getLast?, e.Reads r := by
      intro g hg e he
      refine hreads g hg (e, g.2.getLast?) (List.mem_append_right _ ?_)
      rw [hf]
      exact List.mem_map_of_mem he
    dsimp only
    rw [groupFilter_eq groups hne (op.unfed_fresh f hf) huses hfields]
    simp

end Rows

/-! ## The result -/

section Result

variable (op : GroupByOperator ρ) {counts : Nat → Int32} {tuples : List ρ}

open Classical in
/-- The rows for a child that is not empty. -/
theorem rows_iff_of_ne_nil (hlawful : Lawful (keyCompare op.groupbyFieldExpressions) {r | r ∈ tuples})
    (hperm : ((op.groupBy tuples).map Prod.snd).Perm (op.classes tuples))
    (huses : ∀ g ∈ op.classes tuples, ∀ u ∈ op.uses g, u.1.Right u.2 g)
    (hreads : ∀ g ∈ op.classes tuples, ∀ u ∈ op.reads g, ∀ r ∈ u.2, u.1.Reads r) :
    (op.output counts tuples).Perm
        (((op.classes tuples).filter fun g => decide (op.Holds g)).map op.sqlRow) ↔
      ((∀ g ∈ op.classes tuples, ¬ op.Holds g) →
        ¬ (op.fieldExpressions = [] ∧ op.haveCount = true)) := by
  have hgrouped : Grouped _ tuples (op.groupBy tuples) := grouped_groupsOf hlawful
  have huses : ∀ g ∈ op.groupBy tuples, ∀ u ∈ op.uses g.2, u.1.Right u.2 g.2 := fun g hg =>
    huses g.2 (hperm.subset (List.mem_map_of_mem hg))
  have hreads : ∀ g ∈ op.groupBy tuples, ∀ u ∈ op.reads g.2, ∀ r ∈ u.2, u.1.Reads r := fun g hg =>
    hreads g.2 (hperm.subset (List.mem_map_of_mem hg))
  have hne : ∀ g ∈ op.groupBy tuples, g.2 ≠ [] := by
    intro g hg hnil
    have := hgrouped.head g hg
    rw [hnil] at this
    cases this
  have hlength : (op.groupBy tuples).length ≤ tuples.length := by
    have hnodup : ((op.groupBy tuples).map Prod.fst).Nodup := by
      rw [List.Nodup, List.pairwise_map]
      refine hgrouped.sorted.imp_of_mem fun hp _ hlt heq => ?_
      rw [← heq, hlawful.refl _ (hgrouped.key_mem hp)] at hlt
      exact absurd hlt (Int.lt_irrefl 0)
    have hsub : (op.groupBy tuples).map Prod.fst ⊆ tuples := by
      intro k hk
      obtain ⟨g, hg, rfl⟩ := List.mem_map.mp hk
      exact hgrouped.key_mem hg
    have := (List.subperm_of_subset hnodup hsub).length_le
    rwa [List.length_map] at this
  set left := op.groupFilter (op.groupBy tuples) with hleft
  have hfilter : left = (op.groupBy tuples).filter fun g => decide (op.Holds g.2) :=
    op.groupFilter_groups hne huses hreads
  -- the rows that should be there, in the order of the groups
  have hspec : (((op.classes tuples).filter fun g => decide (op.Holds g)).map op.sqlRow).Perm
      (left.map fun g => op.sqlRow g.2) := by
    refine (((hperm.symm.filter _).map op.sqlRow)).trans (List.Perm.of_eq ?_)
    rw [List.filter_map, hfilter, List.map_map]
    rfl
  have hstate : op.output counts tuples =
      op.drain (tuples.length + 2) ⟨left, left, true, op.closed counts⟩ := rfl
  have hnone : (∀ g ∈ op.classes tuples, ¬ op.Holds g) ↔ left = [] := by
    rw [hfilter, List.filter_eq_nil_iff]
    constructor
    · intro h g hg
      simpa using h g.2 (hperm.subset (List.mem_map_of_mem hg))
    · intro h g hg
      obtain ⟨p, hp, rfl⟩ := List.mem_map.mp (hperm.symm.subset hg)
      simpa using h p hp
  rw [hnone, hstate]
  by_cases hnil : left = []
  · have hrows : op.drain (tuples.length + 2) ⟨left, left, true, op.closed counts⟩ = _ :=
      op.drain_nil (by omega) rfl hnil hnil
    rw [hnil, List.map_nil] at hspec
    rw [hspec.eq_nil, hrows]
    by_cases h : op.fieldExpressions = [] ∧ op.haveCount = true
    · rw [if_pos h]
      simp [hnil, h]
    · rw [if_neg h]
      simp [h]
  · have hsub : ∀ g ∈ left, g ∈ op.groupBy tuples := fun g hg => by
      rw [hfilter] at hg
      exact (List.mem_filter.mp hg).1
    have hshort : left.length < tuples.length + 2 := by
      have := List.length_filter_le (fun g => decide (op.Holds g.2)) (op.groupBy tuples)
      rw [← hfilter] at this
      omega
    rw [op.drain_groups (fun g hg => hgrouped.head g (hsub g hg)) (fun g hg => huses g (hsub g hg))
      (fun g hg => hreads g (hsub g hg)) hshort op.allUnfed_closed rfl fun _ => hnil]
    exact iff_of_true hspec.symm fun h => absurd h hnil

open Classical in
/-- The rows for an empty child. -/
theorem rows_iff_nil : (op.output counts []).Perm
      (((op.classes []).filter fun g => decide (op.Holds g)).map op.sqlRow) ↔
    (op.groupbyFieldExpressions ≠ [] → ¬ (op.fieldExpressions = [] ∧ op.haveCount = true)) ∧
    (op.groupbyFieldExpressions = [] → op.haveCount = true ∧
      ∀ i ∈ op.aggregateExpressions, (op.aggregateExpr i).type = .avg → (op.closed counts i).count = 0) := by
  have hleft : op.groupFilter (op.groupBy []) = [] := by
    unfold groupFilter
    cases op.havingFilter <;> rfl
  have hrows : op.output counts [] = if op.fieldExpressions = [] ∧ op.haveCount = true
      then [(op.evaluated (op.closed counts)).map some] else [] := by
    unfold output openOperator
    rw [hleft]
    exact op.drain_nil (by simp) rfl rfl rfl
  rw [hrows]
  by_cases hfields : op.groupbyFieldExpressions = []
  · obtain ⟨-, hnofields, hnohaving⟩ := op.no_key hfields
    have hclasses : op.classes [] = [[]] := if_pos (List.isEmpty_iff.mpr hfields)
    have hholds : op.Holds [] := fun f hf => by
      rw [hnohaving] at hf
      cases hf
    have hrow : op.sqlRow [] = op.aggregateExpressions.map fun i => (op.aggregateExpr i).sql [] := by
      unfold sqlRow
      rw [hnofields]
      rfl
    rw [hclasses, ← evaluated_closed]
    cases hcount : op.haveCount with
    | true => simp [hfields, hnofields, hholds, hrow]
    | false => simp [hfields, hholds]
  · have hclasses : op.classes [] = [] := if_neg fun hempty => hfields (List.isEmpty_iff.mp hempty)
    rw [hclasses]
    by_cases h : op.fieldExpressions = [] ∧ op.haveCount = true
    · rw [if_pos h]
      simp [hfields, h]
    · rw [if_neg h]
      simp [hfields, h]

/-- `SELECT COUNT(*) FROM t GROUP BY a`. -/
def countGroups : GroupByOperator Int32 where
  aggregateExpr _ := {
    type := .countStar
    argument := fun a => .number (.ints a)
    child := some fun a => .number (.ints a)
    number := .ints
    typed := nofun }
  aggregateExpressions := [0]
  groupbyFieldExpressions := [⟨fun a => .number (.ints a), some fun a => .number (.ints a)⟩]
  fieldExpressions := []
  havingFilter := none
  no_key := nofun
  unfed_fresh := nofun

end Result

end GroupByOperator

end Miniob.Sql
