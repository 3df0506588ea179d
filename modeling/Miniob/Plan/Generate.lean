/-
  From a statement to a plan (src/observer/sql/optimizer/logical_plan_generator.cpp and
  physical_plan_generator.cpp).

  1. `createPlan` is the logical plan of a SELECT; `create` makes the physical one.  Nothing is between them: the
     rewriter is not called.
  2. A table has predicates only if it is the first of its join node and has a condition.  `check_alias_and_joins`
     gives the first one none (`Miniob.Plan.FromList`), so every leaf of the plan of a SELECT is a scan of the whole
     table (`create_plan_plain`), and the search for an index, which is in `create`, finds nothing.

  The statement of a view and the expressions that are not looked at are parameters.  Left out: the plans of the
  subqueries in an expression, which are made where it is met; the plans of other statements, and EXPLAIN.
-/
import Miniob.Expr.Condition
import Miniob.Plan.FromList

namespace Miniob.Plan

open Miniob.Common Miniob.Expr Miniob.Exec

variable {C E S I O : Type}

/-! ## Statements -/

/-- An expression, as far as the generators look into it. -/
inductive Expression (E O : Type) where
  | value (v : Exec.Value O)
  | field (spec : TupleCellSpec)
  | comparison (comp : CompOp) (left right : Expression E O)
  | conjunction (type : ConjunctionType) (children : List (Expression E O))
  | other (e : E)

/-- `GroupByStmt`. -/
structure GroupByStmt (E O : Type) where
  groupBy : List (Expression E O)
  aggExprs : List (Expression E O)
  fieldExprs : List (Expression E O)
  having : Option (Expression E O)
  haveAgg : Bool

/-- `SelectStmt`; the statement of a view is of type `S`. -/
structure SelectStmt (E S O : Type) where
  joinNodes : List (JoinNodes O S (Expression E O))
  filterStmt : Option (Expression E O)
  groupBy : GroupByStmt E O
  orderBy : List (Expression E O × OrderByType)
  queryExpressions : List (Expression E O)
  limit : Int

/-! ## The logical plan -/

/-- The logical operators of a SELECT. -/
inductive LogicalOperator (E S O : Type) where
  | tableGet (table : Table O) (aliasName : String) (predicates : List (Expression E O))
  /-- The child is the plan of the statement of the view. -/
  | viewGet (view : Table O) (predicates : List (Expression E O)) (select : S)
  | predicate (expression : Expression E O) (child : LogicalOperator E S O)
  | join (left right : LogicalOperator E S O)
  | groupBy (stmt : GroupByStmt E O) (child : LogicalOperator E S O)
  | orderBy (keys : List (Expression E O × OrderByType)) (child : LogicalOperator E S O)
  | projection (expressions : List (Expression E O)) (limit : Int) (child : LogicalOperator E S O)

namespace LogicalOperator

/-- `create_plan` of a `FilterStmt`: the expression of the predicate operator, if there is one. -/
def filterPlan (filterStmt : Option (Expression E O)) : Option (Expression E O) :=
  filterStmt.map fun condition => .conjunction .and [condition]

def setPredicates (predicates : List (Expression E O)) : LogicalOperator E S O → LogicalOperator E S O
  | tableGet table aliasName _ => tableGet table aliasName predicates
  | viewGet view _ select => viewGet view predicates select
  | oper => oper

/-- The leaf of an entry; `none` is the ASSERT that a view has its statement. -/
def tableGetOper (isView : Table O → Bool) (entry : JoinEntry O S (Expression E O)) :
    Option (LogicalOperator E S O) :=
  if isView entry.table then entry.viewSelectStmt.map fun select => viewGet entry.table [] select
  else some (tableGet entry.table entry.aliasName [])

/-- `join_table_in_tree`; `oper` is null before the first table. -/
def joinTableInTree (isView : Table O → Bool) (oper : Option (LogicalOperator E S O))
    (entry : JoinEntry O S (Expression E O)) : Option (LogicalOperator E S O) := do
  let getOper ← tableGetOper isView entry
  match oper, filterPlan entry.condition with
  | none, none => return getOper
  | none, some expression => return getOper.setPredicates [expression]
  | some oper, none => return join oper getOper
  | some oper, some expression => return predicate expression (join oper getOper)

/-- The loop over the tables of a join node, from the operator made so far. -/
def nodePlan (isView : Table O → Bool) :
    Option (LogicalOperator E S O) → JoinNodes O S (Expression E O) → Option (Option (LogicalOperator E S O))
  | oper, [] => some oper
  | oper, entry :: entries => do
    let oper ← joinTableInTree isView oper entry
    nodePlan isView (some oper) entries

/-- The loop over the join nodes.  A node without a table would leave a null pointer in the join. -/
def fromPlan (isView : Table O → Bool) :
    Option (LogicalOperator E S O) → List (JoinNodes O S (Expression E O)) → Option (Option (LogicalOperator E S O))
  | tableOper, [] => some tableOper
  | tableOper, node :: nodes => do
    let oper ← nodePlan isView none node
    match tableOper, oper with
    | none, oper => fromPlan isView oper nodes
    | some tableOper, some oper => fromPlan isView (some (join tableOper oper)) nodes
    | some _, none => none

/-- `create_plan` of a `GroupByStmt`: null if there is nothing to group and nothing to aggregate. -/
def groupByPlan (stmt : GroupByStmt E O) : Option (GroupByStmt E O) :=
  if stmt.groupBy.isEmpty ∧ stmt.haveAgg = false then none else some stmt

/-- `create_plan` of an `OrderByStmt`: its keys, if there are any. -/
def orderPlan (keys : List (Expression E O × OrderByType)) : Option (List (Expression E O × OrderByType)) :=
  if keys.isEmpty then none else some keys

/-- An operator on top of the plan, if it is not null. -/
def addOperator {α : Type} (make : α → LogicalOperator E S O → LogicalOperator E S O) (oper : Option α)
    (lastOper : LogicalOperator E S O) : LogicalOperator E S O :=
  match oper with
  | none => lastOper
  | some a => make a lastOper

/-- `create_plan` of a `SelectStmt`; the grammar has no FROM list without an element. -/
def createPlan (isView : Table O → Bool) (stmt : SelectStmt E S O) : Option (LogicalOperator E S O) := do
  let tableOper ← (← fromPlan isView none stmt.joinNodes)
  return projection stmt.queryExpressions stmt.limit <|
    addOperator orderBy (orderPlan stmt.orderBy) <|
      addOperator groupBy (groupByPlan stmt.groupBy) <|
        addOperator predicate (filterPlan stmt.filterStmt) tableOper

end LogicalOperator

/-! ## The physical plan -/

/-- The physical operators of a SELECT. -/
inductive PhysicalPlan (E S I O : Type) where
  | tableScan (table : Table O) (aliasName : String) (predicates : List (Expression E O))
  | indexScan (table : Table O) (index : I) (value : Exec.Value O) (predicates : List (Expression E O))
  | viewScan (view : Table O) (predicates : List (Expression E O)) (select : S)
  | predicate (expression : Expression E O) (child : PhysicalPlan E S I O)
  | join (left right : PhysicalPlan E S I O)
  | groupBy (stmt : GroupByStmt E O) (child : PhysicalPlan E S I O)
  | orderBy (keys : List (Expression E O × OrderByType)) (child : PhysicalPlan E S I O)
  | project (expressions : List (Expression E O)) (limit : Int) (child : PhysicalPlan E S I O)

namespace PhysicalPlan

/-- The field and the value of an equality. -/
def equality : Expression E O → Option (TupleCellSpec × Exec.Value O)
  | .comparison .equalTo (.field spec) (.value v) => some (spec, v)
  | .comparison .equalTo (.value v) (.field spec) => some (spec, v)
  | _ => none

/-- The loop over the predicates: the first index that is found, and the last value. -/
def chooseIndex (findIndexByField : String → Option I) (predicates : List (Expression E O)) :
    Option I × Option (Exec.Value O) :=
  predicates.foldl (fun found expr =>
    match equality expr with
    | none => found
    | some (spec, value) => (found.1.or (findIndexByField spec.fieldName), some value)) (none, none)

/-- `PhysicalPlanGenerator::create`. -/
def create (findIndexByField : Table O → String → Option I) : LogicalOperator E S O → PhysicalPlan E S I O
  | .tableGet table aliasName predicates =>
    match chooseIndex (findIndexByField table) predicates with
    | (some index, some value) => indexScan table index value predicates
    | _ => tableScan table aliasName predicates
  | .viewGet view predicates select => viewScan view predicates select
  | .predicate expression child => predicate expression (create findIndexByField child)
  | .join left right => join (create findIndexByField left) (create findIndexByField right)
  | .groupBy stmt child => groupBy stmt (create findIndexByField child)
  | .orderBy keys child => orderBy keys (create findIndexByField child)
  | .projection expressions limit child => project expressions limit (create findIndexByField child)

end PhysicalPlan

/-! ## The shape of a plan -/

/-- No leaf has predicates. -/
inductive LogicalOperator.Plain : LogicalOperator E S O → Prop where
  | tableGet (table : Table O) (aliasName : String) : Plain (.tableGet table aliasName [])
  | viewGet (view : Table O) (select : S) : Plain (.viewGet view [] select)
  | predicate (expression : Expression E O) {child : LogicalOperator E S O} :
      Plain child → Plain (.predicate expression child)
  | join {left right : LogicalOperator E S O} : Plain left → Plain right → Plain (.join left right)
  | groupBy (stmt : GroupByStmt E O) {child : LogicalOperator E S O} : Plain child → Plain (.groupBy stmt child)
  | orderBy (keys : List (Expression E O × OrderByType)) {child : LogicalOperator E S O} :
      Plain child → Plain (.orderBy keys child)
  | projection (expressions : List (Expression E O)) (limit : Int) {child : LogicalOperator E S O} :
      Plain child → Plain (.projection expressions limit child)

/-- The leaves scan whole tables, and statements of views. -/
inductive PhysicalPlan.Plain : PhysicalPlan E S I O → Prop where
  | tableScan (table : Table O) (aliasName : String) : Plain (.tableScan table aliasName [])
  | viewScan (view : Table O) (select : S) : Plain (.viewScan view [] select)
  | predicate (expression : Expression E O) {child : PhysicalPlan E S I O} :
      Plain child → Plain (.predicate expression child)
  | join {left right : PhysicalPlan E S I O} : Plain left → Plain right → Plain (.join left right)
  | groupBy (stmt : GroupByStmt E O) {child : PhysicalPlan E S I O} : Plain child → Plain (.groupBy stmt child)
  | orderBy (keys : List (Expression E O × OrderByType)) {child : PhysicalPlan E S I O} :
      Plain child → Plain (.orderBy keys child)
  | project (expressions : List (Expression E O)) (limit : Int) {child : PhysicalPlan E S I O} :
      Plain child → Plain (.project expressions limit child)

namespace LogicalOperator

section Plan

variable {isView : Table O → Bool} {oper : LogicalOperator E S O}

/-- An entry without a condition has an operator without predicates. -/
theorem plain_tableGetOper {entry : JoinEntry O S (Expression E O)} (h : tableGetOper isView entry = some oper) :
    oper.Plain := by
  unfold tableGetOper at h
  split at h
  · obtain ⟨select, -, rfl⟩ := Option.map_eq_some_iff.mp h
    exact .viewGet entry.table select
  · obtain rfl := Option.some.inj h
    exact .tableGet entry.table entry.aliasName

/-- The first entry of a node, if it has no condition. -/
theorem plain_joinTableInTree_none {entry : JoinEntry O S (Expression E O)} (hnone : entry.condition = none)
    (h : joinTableInTree isView none entry = some oper) : oper.Plain := by
  unfold joinTableInTree at h
  obtain ⟨getOper, hget, h⟩ := Option.bind_eq_some_iff.mp h
  rw [hnone] at h
  obtain rfl := Option.some.inj h
  exact plain_tableGetOper hget

/-- A further entry: its condition goes on top of the join. -/
theorem Plain.joinTableInTree {left : LogicalOperator E S O} (hleft : left.Plain)
    {entry : JoinEntry O S (Expression E O)} (h : joinTableInTree isView (some left) entry = some oper) :
    oper.Plain := by
  unfold LogicalOperator.joinTableInTree at h
  obtain ⟨getOper, hget, h⟩ := Option.bind_eq_some_iff.mp h
  have hjoin := hleft.join (plain_tableGetOper hget)
  cases hfilter : filterPlan entry.condition with
  | none =>
    rw [hfilter] at h
    obtain rfl := Option.some.inj h
    exact hjoin
  | some expression =>
    rw [hfilter] at h
    obtain rfl := Option.some.inj h
    exact .predicate expression hjoin

/-- The entries that are joined to the first one. -/
theorem Plain.nodePlan {entries : JoinNodes O S (Expression E O)} {left : LogicalOperator E S O} (hleft : left.Plain)
    {last : Option (LogicalOperator E S O)} (h : nodePlan isView (some left) entries = some last) :
    ∃ oper, last = some oper ∧ oper.Plain := by
  induction entries generalizing left with
  | nil => exact ⟨left, (Option.some.inj h).symm, hleft⟩
  | cons entry entries ih =>
    rw [LogicalOperator.nodePlan] at h
    obtain ⟨oper, hoper, h⟩ := Option.bind_eq_some_iff.mp h
    exact ih (hleft.joinTableInTree hoper) h

/-- The first entry of the node has no condition. -/
def FirstPlain (node : JoinNodes O S (Expression E O)) : Prop :=
  ∃ first joined, node = first :: joined ∧ first.condition = none

theorem plain_nodePlan {node : JoinNodes O S (Expression E O)} (hnode : FirstPlain node)
    {last : Option (LogicalOperator E S O)} (h : nodePlan isView none node = some last) :
    ∃ oper, last = some oper ∧ oper.Plain := by
  obtain ⟨first, joined, rfl, hnone⟩ := hnode
  rw [nodePlan] at h
  obtain ⟨oper, hoper, h⟩ := Option.bind_eq_some_iff.mp h
  exact (plain_joinTableInTree_none hnone hoper).nodePlan h

/-- The loop over the nodes: what it starts with and what each node adds is plain. -/
theorem plain_fromPlan {nodes : List (JoinNodes O S (Expression E O))} (hnodes : ∀ node ∈ nodes, FirstPlain node)
    {start last : Option (LogicalOperator E S O)} (hstart : ∀ oper ∈ start, oper.Plain)
    (h : fromPlan isView start nodes = some last) : ∀ oper ∈ last, oper.Plain := by
  induction nodes generalizing start with
  | nil =>
    obtain rfl := Option.some.inj h
    exact hstart
  | cons node nodes ih =>
    rw [fromPlan] at h
    obtain ⟨nodeOper, hnode, h⟩ := Option.bind_eq_some_iff.mp h
    obtain ⟨hfirst, hrest⟩ := List.forall_mem_cons.mp hnodes
    obtain ⟨right, rfl, hright⟩ := plain_nodePlan hfirst hnode
    cases start with
    | none => exact ih hrest (fun oper hoper => Option.mem_some.mp hoper ▸ hright) h
    | some left =>
      have hjoin := (hstart left rfl).join hright
      exact ih hrest (fun oper hoper => Option.mem_some.mp hoper ▸ hjoin) h

theorem Plain.addOperator {α : Type} {make : α → LogicalOperator E S O → LogicalOperator E S O}
    (hmake : ∀ a oper, Plain oper → Plain (make a oper)) {oper : Option α} {lastOper : LogicalOperator E S O}
    (h : lastOper.Plain) : Plain (addOperator make oper lastOper) := by
  cases oper with
  | none => exact h
  | some a => exact hmake a lastOper h

/-- So the plan has only such operators. -/
theorem plain_createPlan {stmt : SelectStmt E S O} (hnodes : ∀ node ∈ stmt.joinNodes, FirstPlain node)
    (h : createPlan isView stmt = some oper) : oper.Plain := by
  unfold createPlan at h
  obtain ⟨last, hfrom, h⟩ := Option.bind_eq_some_iff.mp h
  obtain ⟨tableOper, rfl, h⟩ := Option.bind_eq_some_iff.mp h
  obtain rfl := Option.some.inj h
  apply Plain.projection
  apply Plain.addOperator fun keys _ h => .orderBy keys h
  apply Plain.addOperator fun stmt _ h => .groupBy stmt h
  apply Plain.addOperator fun expression _ h => .predicate expression h
  exact plain_fromPlan hnodes (fun _ h => absurd h (Option.not_mem_none _)) hfrom tableOper rfl

end Plan

end LogicalOperator

/-- And without predicates no index is looked for. -/
theorem LogicalOperator.Plain.create {oper : LogicalOperator E S O} (h : oper.Plain)
    (findIndexByField : Table O → String → Option I) : (PhysicalPlan.create findIndexByField oper).Plain := by
  induction h with
  | tableGet table aliasName => exact .tableScan table aliasName
  | viewGet view select => exact .viewScan view select
  | predicate expression _ ih => exact .predicate expression ih
  | join _ _ ihl ihr => exact .join ihl ihr
  | groupBy stmt _ ih => exact .groupBy stmt ih
  | orderBy keys _ ih => exact .orderBy keys ih
  | projection expressions limit _ ih => exact .project expressions limit ih

/-- **No index is used.**  Whatever indexes there are, the plan of a SELECT over a FROM list that has been checked
    scans whole tables. -/
theorem create_plan_plain {r : Resolver O S C (Expression E O)} {outside : NameMap (Table O)}
    {fromList : List (JoinSqlNode C)} {s : FromNames O} {stmt : SelectStmt E S O}
    (hfrom : r.checkAliasAndJoins outside fromList = .ok (s, stmt.joinNodes)) {isView : Table O → Bool}
    {oper : LogicalOperator E S O} (hplan : LogicalOperator.createPlan isView stmt = some oper)
    (findIndexByField : Table O → String → Option I) : (PhysicalPlan.create findIndexByField oper).Plain :=
  (LogicalOperator.plain_createPlan (checkNodes_ok hfrom).first_none hplan).create findIndexByField

/-- The equality b.id = 1. -/
def idIsOne : Expression Empty (List UInt8) :=
  .comparison .equalTo (.field (.make "t" "id" "b.id")) (.value (.other [1]))

/-- FROM t a INNER JOIN t b ON b.id = 1. -/
def joinedNames : FromNames (List UInt8) where
  aliasSet := ["b", "a"]
  aliasMap := NameMap.emplace (NameMap.emplace (fun _ => none) "t" "a") "t" "b"
  allTables := ["a", "t", "b", "t"].foldl (fun m name => NameMap.emplace m name idTable) fun _ => none
  tables := [idTable, idTable]
  tableAlias := ["a", "b"]

/-- `SELECT a.id FROM t AS a, t AS b WHERE a.id = 1`. -/
def joinedStmt : SelectStmt Empty Empty (List UInt8) where
  joinNodes := [[⟨idTable, "a", none, none⟩, ⟨idTable, "b", none, some idIsOne⟩]]
  filterStmt := none
  groupBy := ⟨[], [], [], none, false⟩
  orderBy := []
  queryExpressions := [.field (.make "t" "id" "a.id")]
  limit := 2147483647

/-- The column has an index, and both tables are scanned. -/
theorem create_plan_plain_join : (PhysicalPlan.project [.field (.make "t" "id" "a.id")] 2147483647
    (.predicate (.conjunction .and [idIsOne]) (.join (.tableScan idTable "a" []) (.tableScan idTable "b" []))) :
    PhysicalPlan Empty Empty Unit (List UInt8)).Plain := by
  let r : Resolver (List UInt8) Empty (Expression Empty (List UInt8)) (Expression Empty (List UInt8)) :=
    ⟨idCatalog, fun _ => none, fun _ _ e => .ok e⟩
  have hfrom : r.checkAliasAndJoins (fun _ => none) [⟨⟨"t", "", "a"⟩, [(⟨"t", "", "b"⟩, some idIsOne)]⟩] =
    .ok (joinedNames, joinedStmt.joinNodes) := rfl
  have hplan : LogicalOperator.createPlan (fun _ => false) joinedStmt =
    some (.projection [.field (.make "t" "id" "a.id")] 2147483647 (.predicate (.conjunction .and [idIsOne])
      (.join (.tableGet idTable "a" []) (.tableGet idTable "b" [])))) := rfl
  exact create_plan_plain hfrom hplan fun _ fieldName => if fieldName = "id" then some () else none

end Miniob.Plan
