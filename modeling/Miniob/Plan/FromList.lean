/-
  The FROM list of a SELECT (`check_alias_and_joins` in src/observer/sql/stmt/select_stmt.cpp).

  1. **Names.**  The list fills a map from names to tables (`allTables`).  `emplace` does not overwrite: a name that is
     in the map already stays what it was, so a name stands for the first entry that it names (`Lists`, by induction
     over the list).
  2. **Join nodes.**  Each element of the list, with the tables that are joined to it, becomes a `JoinNodes`.  The table
     of an entry is not the one that has been found in the catalog, but the one that its name has in the map.  The
     two differ where an alias further to the left is that name; without such an alias they are the same
     (`CheckedFrom.entries_eq`).
  3. The first table of a node is checked with a null pointer for its condition, so it has none
     (`CheckedFrom.first_none`).

  `SelectStmt::create` for the statement of a view and `FilterStmt::create` for a condition are parameters: they
  leave the maps as they are.
-/
import Miniob.Common.Run
import Miniob.Exec.NestedLoopJoin
import Miniob.Exec.OrderBy

namespace Miniob.Plan

open Miniob.Common
open Miniob.Storage (RC)

variable {α O S E F : Type}

/-! ## Tables -/

/-- A field of a table: its name, where it is in a record, and the value that `set_type` and `set_data` make. -/
structure ScanField (O : Type) where
  fieldName : String
  offset : Nat
  len : Nat
  value : List UInt8 → Exec.Value O

structure Table (O : Type) where
  name : String
  fields : List (ScanField O)

/-- `opened_tables_`: a table lies under its name. -/
structure Catalog (O : Type) where
  findTable : String → Option (Table O)
  name_eq : ∀ {name table}, findTable name = some table → table.name = name

/-- An `unordered_map` with names for keys. -/
abbrev NameMap (α : Type) := String → Option α

/-- A name that is there keeps its value. -/
def NameMap.emplace (m : NameMap α) (name : String) (a : α) : NameMap α :=
  fun n => if n = name then (m n).or (some a) else m n

structure RelAttrSqlNode where
  relationName : String
  attributeName : String
  aliasName : String

/-! ## Names -/

/-- What `check_alias_and_joins` collects about names. -/
structure FromNames (O : Type) where
  aliasSet : List String
  /-- From a table to the alias that it has first. -/
  aliasMap : NameMap String
  allTables : NameMap (Table O)
  tables : List (Table O)
  tableAlias : List String

/-- `table_map` starts with the names of the statement outside. -/
def FromNames.start (outside : NameMap (Table O)) : FromNames O := ⟨[], fun _ => none, outside, [], []⟩

/-- The lambda `push_and_check_table`. -/
def pushAndCheckTable (catalog : Catalog O) (s : FromNames O) (tableName : RelAttrSqlNode) :
    Except RC (FromNames O) :=
  if tableName.relationName = "" then .error .schemaTableNotExist
  else match catalog.findTable tableName.relationName with
    | none => .error .schemaTableNotExist
    | some table =>
      let push (s : FromNames O) : FromNames O :=
        { s with
          tableAlias := s.tableAlias ++ [tableName.aliasName]
          tables := s.tables ++ [table]
          allTables := s.allTables.emplace tableName.relationName table }
      if tableName.aliasName = "" then .ok (push s)
      else if tableName.aliasName ∈ s.aliasSet then .error .invalidArgument
      else .ok (push
        { s with
          aliasSet := tableName.aliasName :: s.aliasSet
          aliasMap := s.aliasMap.emplace tableName.relationName tableName.aliasName
          allTables := s.allTables.emplace tableName.aliasName table })

/-- The names alone: what the loop does to the maps, one relation after the other. -/
def checkAliases (catalog : Catalog O) (outside : NameMap (Table O)) (fromList : List RelAttrSqlNode) :
    Except RC (FromNames O) :=
  fromList.foldlM (pushAndCheckTable catalog) (.start outside)

/-! ## Join nodes -/

/-- An element of the FROM list; the grammar puts a condition beside every relation that is joined. -/
structure JoinSqlNode (E : Type) where
  firstRel : RelAttrSqlNode
  joinRels : List (RelAttrSqlNode × Option E)

/-- All relations, from left to right. -/
def JoinSqlNode.rels (node : JoinSqlNode E) : List RelAttrSqlNode := node.firstRel :: node.joinRels.map Prod.fst

/-- The four vectors of `JoinNodes` at one index. -/
structure JoinEntry (O S F : Type) where
  table : Table O
  aliasName : String
  viewSelectStmt : Option S
  condition : Option F

abbrev JoinNodes (O S F : Type) := List (JoinEntry O S F)

/-- What the loop needs of the rest of the resolver. -/
structure Resolver (O S E F : Type) where
  catalog : Catalog O
  /-- `is_view()` and the outcome of `SelectStmt::create` on the statement of the view. -/
  viewSelect : Table O → Option (Except RC S)
  /-- `FilterStmt::create`. -/
  createFilter : FromNames O → Option (Table O) → E → Except RC F

/-- The lambda `push_and_check_view`: the statement of the view, or the null pointer. -/
def Resolver.pushAndCheckView (r : Resolver O S E F) (tableName : RelAttrSqlNode) : Except RC (Option S) :=
  match r.catalog.findTable tableName.relationName with
  | none => .error .schemaTableNotExist
  | some table =>
    match r.viewSelect table with
    | none => .ok none
    | some select => select.map some

/-- The filter of a condition; the null pointer stays one. -/
def Resolver.filter (r : Resolver O S E F) (s : FromNames O) (table : Option (Table O)) :
    Option E → Except RC (Option F)
  | none => .ok none
  | some conditions => (r.createFilter s table conditions).map some

/-- The lambda `check_table`. -/
def Resolver.checkTable (r : Resolver O S E F) (s : FromNames O) (rel : RelAttrSqlNode) (conditions : Option E) :
    Except RC (FromNames O × JoinEntry O S F) := do
  let s ← pushAndCheckTable r.catalog s rel
  let viewSelectStmt ← r.pushAndCheckView rel
  let condition ← r.filter s (s.allTables rel.relationName) conditions
  -- `all_tables[table.relation_name]`, which has been filled above
  match s.allTables rel.relationName with
  | none => .error .schemaTableNotExist
  | some table => .ok (s, ⟨table, rel.aliasName, viewSelectStmt, condition⟩)

/-- The inner loop, over the relations that are joined to the first one. -/
def Resolver.checkJoined (r : Resolver O S E F) :
    FromNames O → List (RelAttrSqlNode × Option E) → Except RC (FromNames O × JoinNodes O S F)
  | s, [] => .ok (s, [])
  | s, (rel, conditions) :: rest => do
    let (s, entry) ← r.checkTable s rel conditions
    let (s, entries) ← r.checkJoined s rest
    return (s, entry :: entries)

/-- The outer loop, over the FROM list. -/
def Resolver.checkNodes (r : Resolver O S E F) :
    FromNames O → List (JoinSqlNode E) → Except RC (FromNames O × List (JoinNodes O S F))
  | s, [] => .ok (s, [])
  | s, node :: nodes => do
    let (s, first) ← r.checkTable s node.firstRel none
    let (s, joined) ← r.checkJoined s node.joinRels
    let (s, rest) ← r.checkNodes s nodes
    return (s, (first :: joined) :: rest)

/-- `check_alias_and_joins`. -/
def Resolver.checkAliasAndJoins (r : Resolver O S E F) (outside : NameMap (Table O)) (fromList : List (JoinSqlNode E)) :
    Except RC (FromNames O × List (JoinNodes O S F)) :=
  r.checkNodes (.start outside) fromList

/-! ## What the names stand for -/

/-- An entry of the FROM list. -/
structure FromTable (O : Type) where
  table : Table O
  aliasName : String

/-- The name is the alias of the entry, or its table. -/
def FromTable.named (name : String) (entry : FromTable O) : Bool := entry.aliasName = name || entry.table.name = name

/-- The entries, in order. -/
def FromNames.entries (s : FromNames O) : List (FromTable O) := List.zipWith FromTable.mk s.tables s.tableAlias

theorem emplace_apply (m : NameMap α) (name : String) (a : α) (n : String) :
    m.emplace name a n = (m n).or (if n = name then some a else none) := by
  unfold NameMap.emplace
  split
  · rfl
  · rw [Option.or_none]

/-- A name that is there keeps its meaning. -/
theorem emplace_of_some {m : NameMap α} {n : String} {a : α} (h : m n = some a) (name : String) (b : α) :
    m.emplace name b n = some a := by
  rw [emplace_apply, h]
  rfl

/-- A name stands for the first entry that it names, unless it has a meaning outside. -/
structure Lists (catalog : Catalog O) (outside : NameMap (Table O)) (s : FromNames O) (entries : List (FromTable O)) :
    Prop where
  tables : s.tables = entries.map FromTable.table
  tableAlias : s.tableAlias = entries.map FromTable.aliasName
  allTables : ∀ name, name ≠ "" →
    s.allTables name = (outside name).or ((entries.find? (FromTable.named name)).map FromTable.table)

theorem Lists.entries_eq {catalog : Catalog O} {outside : NameMap (Table O)} {s : FromNames O}
    {entries : List (FromTable O)} (h : Lists catalog outside s entries) : s.entries = entries := by
  unfold FromNames.entries
  rw [h.tables, h.tableAlias, List.zipWith_map, List.zipWith_self]
  exact List.map_id' entries

section FromList

variable {catalog : Catalog O} {outside : NameMap (Table O)} {s s' : FromNames O} {entries : List (FromTable O)}

theorem lists_start : Lists catalog outside (.start outside) [] where
  tables := rfl
  tableAlias := rfl
  allTables name _ := (Option.or_none (o := outside name)).symm

/-- Step: an entry more. -/
theorem Lists.push (h : Lists catalog outside s entries) {tableName : RelAttrSqlNode}
    (hpush : pushAndCheckTable catalog s tableName = .ok s') : ∃ table,
      catalog.findTable tableName.relationName = some table ∧
        Lists catalog outside s' (entries ++ [⟨table, tableName.aliasName⟩]) := by
  unfold pushAndCheckTable at hpush
  split at hpush
  · cases hpush
  cases htable : catalog.findTable tableName.relationName with
  | none =>
    rw [htable] at hpush
    cases hpush
  | some table =>
    rw [htable] at hpush
    have hname : table.name = tableName.relationName := catalog.name_eq htable
    -- the names of the new entry, behind those that are there
    have hentry : ∀ name, ((entries ++ [FromTable.mk table tableName.aliasName]).find? (FromTable.named name)).map
        FromTable.table = ((entries.find? (FromTable.named name)).map FromTable.table).or
          (if tableName.aliasName = name ∨ tableName.relationName = name then some table else none) := by
      intro name
      rw [List.find?_append, Option.map_or]
      congr 1
      show Option.map _ (List.find? _ [_]) = _
      by_cases hor : tableName.aliasName = name ∨ tableName.relationName = name
      · rw [if_pos hor, List.find?_cons_of_pos]
        · rfl
        · simpa [FromTable.named, hname] using hor
      · rw [if_neg hor, List.find?_cons_of_neg]
        · rfl
        · simpa [FromTable.named, hname] using hor
    refine ⟨table, rfl, ?_⟩
    dsimp only at hpush
    split at hpush
    case isTrue hnone =>
      obtain rfl := Except.ok.inj hpush
      refine ⟨?_, ?_, fun name hne => ?_⟩
      · rw [List.map_append, ← h.tables]
        rfl
      · rw [List.map_append, ← h.tableAlias]
        rfl
      · show NameMap.emplace s.allTables _ _ name = _
        rw [hentry, emplace_apply, h.allTables name hne, Option.or_assoc, hnone]
        simp only [hne.symm, false_or, eq_comm]
    case isFalse hsome =>
      split at hpush
      · cases hpush
      obtain rfl := Except.ok.inj hpush
      refine ⟨?_, ?_, fun name hne => ?_⟩
      · rw [List.map_append, ← h.tables]
        rfl
      · rw [List.map_append, ← h.tableAlias]
        rfl
      · show NameMap.emplace (NameMap.emplace s.allTables _ _) _ _ name = _
        rw [hentry, emplace_apply, emplace_apply, h.allTables name hne, Option.or_assoc, Option.or_assoc]
        congr 2
        by_cases halias : name = tableName.aliasName
        · rw [if_pos halias, if_pos (Or.inl halias.symm)]
          rfl
        · rw [if_neg halias, Option.none_or]
          simp only [Ne.symm halias, false_or, eq_comm]

/-- The entry is the table of this name in the catalog. -/
def EntryOf (catalog : Catalog O) (rel : RelAttrSqlNode) (entry : FromTable O) : Prop :=
  catalog.findTable rel.relationName = some entry.table ∧ entry.aliasName = rel.aliasName

/-- Run: the whole list. -/
theorem Lists.pushAll (fromList : List RelAttrSqlNode) : ∀ {s : FromNames O} {entries : List (FromTable O)},
    Lists catalog outside s entries → fromList.foldlM (pushAndCheckTable catalog) s = .ok s' →
      ∃ more, Lists catalog outside s' (entries ++ more) ∧
        List.Forall₂ (EntryOf catalog) fromList more := by
  induction fromList with
  | nil =>
    intro s entries h hrun
    obtain rfl := Except.ok.inj hrun
    exact ⟨[], by rwa [List.append_nil], .nil⟩
  | cons rel fromList ih =>
    intro s entries h hrun
    rw [List.foldlM_cons] at hrun
    obtain ⟨s₁, hpush, hrest⟩ := ok_of_bind hrun
    obtain ⟨table, htable, h₁⟩ := h.push hpush
    obtain ⟨more, h', hmore⟩ := ih h₁ hrest
    refine ⟨⟨table, rel.aliasName⟩ :: more, ?_, .cons ⟨htable, rfl⟩ hmore⟩
    rwa [List.append_assoc] at h'

/-- The FROM list of a statement: its entries, and what the names stand for. -/
theorem checkAliases_lists {fromList : List RelAttrSqlNode} (h : checkAliases catalog outside fromList = .ok s) :
    Lists catalog outside s s.entries ∧ List.Forall₂ (EntryOf catalog) fromList s.entries := by
  obtain ⟨entries, hlists, hentries⟩ := lists_start.pushAll fromList h
  rw [List.nil_append] at hlists
  rw [hlists.entries_eq]
  exact ⟨hlists, hentries⟩

end FromList


/-! ## The join nodes -/

/-- What has a meaning keeps it. -/
def Grows (m m' : NameMap α) : Prop := ∀ n a, m n = some a → m' n = some a

theorem Grows.emplace {m m' : NameMap α} (h : Grows m m') (name : String) (b : α) : Grows m (m'.emplace name b) :=
  fun n a ha => emplace_of_some (h n a ha) name b

/-- The relation `rel` has become the entry. -/
structure EntryIn (s : FromNames O) (rel : RelAttrSqlNode) (entry : JoinEntry O S F) : Prop where
  table : s.allTables rel.relationName = some entry.table
  aliasName : entry.aliasName = rel.aliasName

section JoinNodes

variable {r : Resolver O S E F} {s s' s'' : FromNames O}

/-- A name that has a meaning keeps it. -/
theorem pushAndCheckTable_grows {catalog : Catalog O} {rel : RelAttrSqlNode}
    (hpush : pushAndCheckTable catalog s rel = .ok s') : Grows s.allTables s'.allTables := by
  unfold pushAndCheckTable at hpush
  split at hpush
  · cases hpush
  split at hpush
  · cases hpush
  rename_i table _
  dsimp only at hpush
  have hself : Grows s.allTables s.allTables := fun _ _ h => h
  split at hpush
  · obtain rfl := Except.ok.inj hpush
    exact hself.emplace rel.relationName table
  · split at hpush
    · cases hpush
    · obtain rfl := Except.ok.inj hpush
      exact (hself.emplace rel.aliasName table).emplace rel.relationName table

theorem EntryIn.grows {rel : RelAttrSqlNode} {entry : JoinEntry O S F} (h : EntryIn s rel entry)
    (hgrows : Grows s.allTables s'.allTables) : EntryIn s' rel entry :=
  ⟨hgrows _ _ h.table, h.aliasName⟩

/-- One relation: the names are those of `push_and_check_table`; a null pointer gives no condition. -/
theorem checkTable_ok {rel : RelAttrSqlNode} {conditions : Option E} {entry : JoinEntry O S F}
    (h : r.checkTable s rel conditions = .ok (s', entry)) :
    pushAndCheckTable r.catalog s rel = .ok s' ∧ EntryIn s' rel entry ∧
      (conditions = none → entry.condition = none) := by
  unfold Resolver.checkTable at h
  obtain ⟨s₁, hpush, h⟩ := ok_of_bind h
  obtain ⟨viewSelectStmt, -, h⟩ := ok_of_bind h
  obtain ⟨condition, hcondition, h⟩ := ok_of_bind h
  split at h
  · cases h
  · rename_i table htable
    obtain ⟨rfl, rfl⟩ := Prod.mk.inj (Except.ok.inj h)
    refine ⟨hpush, ⟨htable, rfl⟩, ?_⟩
    rintro rfl
    exact (Except.ok.inj hcondition).symm

/-- The relations of one join node, one by one. -/
theorem checkJoined_ok {rest : List (RelAttrSqlNode × Option E)} {entries : JoinNodes O S F}
    (h : r.checkJoined s rest = .ok (s', entries)) :
    (rest.map Prod.fst).foldlM (pushAndCheckTable r.catalog) s = .ok s' ∧ Grows s.allTables s'.allTables ∧
      List.Forall₂ (EntryIn s') (rest.map Prod.fst) entries := by
  induction rest generalizing s entries with
  | nil =>
    obtain ⟨rfl, rfl⟩ := Prod.mk.inj (Except.ok.inj h)
    exact ⟨rfl, fun _ _ h => h, .nil⟩
  | cons item rest ih =>
    rw [Resolver.checkJoined] at h
    obtain ⟨⟨s₁, entry⟩, hentry, h⟩ := ok_of_bind h
    obtain ⟨⟨s₂, more⟩, hmore, h⟩ := ok_of_bind h
    obtain ⟨rfl, rfl⟩ := Prod.mk.inj (Except.ok.inj h)
    obtain ⟨hpush, hin, -⟩ := checkTable_ok hentry
    obtain ⟨hrest, hgrows, hall⟩ := ih hmore
    refine ⟨?_, fun n a ha => hgrows n a (pushAndCheckTable_grows hpush n a ha), .cons (hin.grows hgrows) hall⟩
    rw [List.map_cons, List.foldlM_cons]
    exact (bind_ok _ hpush).trans hrest

/-- What `check_alias_and_joins` has made of a FROM list, from the names `s` to the names `s'`. -/
structure CheckedFrom (r : Resolver O S E F) (s s' : FromNames O) (fromList : List (JoinSqlNode E))
    (joins : List (JoinNodes O S F)) : Prop where
  /-- The relations are pushed one after the other. -/
  names : (fromList.flatMap JoinSqlNode.rels).foldlM (pushAndCheckTable r.catalog) s = .ok s'
  /-- An alias that is known stays known. -/
  grows : Grows s.allTables s'.allTables
  /-- Each relation has its entry, with the table its name stands for. -/
  entries : List.Forall₂ (EntryIn s') (fromList.flatMap JoinSqlNode.rels) joins.flatten
  /-- The condition of the first relation of each node is the null pointer. -/
  first_none : ∀ node ∈ joins, ∃ first joined, node = first :: joined ∧ first.condition = none
  /-- One node for each element of the list. -/
  length : joins.length = fromList.length

/-- The induction on the join nodes. -/
theorem checkNodes_ok {fromList : List (JoinSqlNode E)} {joins : List (JoinNodes O S F)}
    (h : r.checkNodes s fromList = .ok (s', joins)) : CheckedFrom r s s' fromList joins := by
  induction fromList generalizing s joins with
  | nil =>
    obtain ⟨rfl, rfl⟩ := Prod.mk.inj (Except.ok.inj h)
    exact ⟨rfl, fun _ _ h => h, .nil, List.forall_mem_nil _, rfl⟩
  | cons node nodes ih =>
    rw [Resolver.checkNodes] at h
    obtain ⟨⟨s₁, first⟩, hfirst, h⟩ := ok_of_bind h
    obtain ⟨⟨s₂, joined⟩, hjoined, h⟩ := ok_of_bind h
    obtain ⟨⟨s₃, more⟩, hmore, h⟩ := ok_of_bind h
    obtain ⟨rfl, rfl⟩ := Prod.mk.inj (Except.ok.inj h)
    obtain ⟨hpush, hin, hnull⟩ := checkTable_ok hfirst
    obtain ⟨hnames, hgrows, hall⟩ := checkJoined_ok hjoined
    have hrest := ih hmore
    refine ⟨?_, ?_, ?_, ?_, congrArg (· + 1) hrest.length⟩
    · show ((node.firstRel :: node.joinRels.map Prod.fst) ++ nodes.flatMap JoinSqlNode.rels).foldlM _ s = _
      rw [List.foldlM_append, List.foldlM_cons]
      exact (bind_ok _ ((bind_ok _ hpush).trans hnames)).trans hrest.names
    · exact fun n a ha => hrest.grows n a (hgrows n a (pushAndCheckTable_grows hpush n a ha))
    · refine List.rel_append (.cons ((hin.grows hgrows).grows hrest.grows) ?_) hrest.entries
      exact hall.imp fun _ _ he => he.grows hrest.grows
    · intro node' hnode
      rcases List.mem_cons.mp hnode with rfl | hnode
      · exact ⟨first, joined, rfl, hnull rfl⟩
      · exact hrest.first_none node' hnode

/-- The entry as the scan of its table sees it. -/
def JoinEntry.source (entry : JoinEntry O S F) : FromTable O := ⟨entry.table, entry.aliasName⟩

/-- If each name of a relation means the relation itself, the tables of the join nodes are those of the list. -/
theorem CheckedFrom.entries_eq {outside : NameMap (Table O)} {fromList : List (JoinSqlNode E)}
    {joins : List (JoinNodes O S F)} (h : CheckedFrom r (.start outside) s fromList joins)
    (hself : ∀ rel ∈ fromList.flatMap JoinSqlNode.rels,
      s.allTables rel.relationName = r.catalog.findTable rel.relationName) :
    joins.flatten.map JoinEntry.source = s.entries := by
  obtain ⟨-, hlisted⟩ := checkAliases_lists h.names
  have hentries := h.entries
  clear h
  -- both lists answer to the relations, one after the other
  generalize joins.flatten = entries at hentries
  generalize s.entries = listed at hlisted
  generalize fromList.flatMap JoinSqlNode.rels = rels at hself hlisted hentries
  induction hentries generalizing listed with
  | nil =>
    cases hlisted
    rfl
  | @cons rel entry rels entries hin _ ih =>
    cases hlisted with
    | @cons _ fromTable _ listed hof hlisted =>
      obtain ⟨hfind, halias⟩ := hof
      have htable : entry.table = fromTable.table := by
        have htable := hself rel List.mem_cons_self
        rw [hin.table, hfind] at htable
        exact Option.some.inj htable
      rw [List.map_cons, ih listed (fun rel' hrel => hself rel' (List.mem_cons_of_mem rel hrel)) hlisted]
      refine congrArg (· :: listed) ?_
      obtain ⟨table, aliasName⟩ := fromTable
      obtain rfl := htable
      obtain rfl : rel.aliasName = aliasName := halias.symm
      show FromTable.mk entry.table entry.aliasName = _
      rw [hin.aliasName]

end JoinNodes

/-! ## An example -/

/-- A table with one field. -/
def idTable : Table (List UInt8) where
  name := "t"
  fields := [⟨"id", 0, 1, .other⟩]

/-- A database with one table. -/
def idCatalog : Catalog (List UInt8) where
  findTable name := if name = "t" then some idTable else none
  name_eq := by
    intro name table h
    split at h
    case isTrue hname => exact (Option.some.inj h) ▸ hname.symm
    case isFalse => cases h

end Miniob.Plan
