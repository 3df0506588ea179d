/-
  Names in a SELECT (`FieldExpr::check_field` in src/observer/sql/expr/expression.cpp) and what is read under them
  (`RowTuple::find_cell` and `JoinedTuple::find_cell` in src/observer/sql/expr/tuple.h).

  1. **Static part**: `checkField` takes the table of a field from the map that the FROM list has filled.
  2. **Run time**: there are no tables any more, only rows in rows.  A field is looked up by the name of its table and,
     where the alias of the expression has a dot, by the part of it before the dot.
  3. `qualified_name_reads`: with several tables the two agree, if no alias of the list hides the name of one of its
     tables.
  4. `unqualified_alias_reads`: with one table, or under a column alias, only the table counts.  So a table that is
     there twice is read in its first place, also where the name that was written belongs to the second.
-/
import Miniob.Plan.FromList
import Miniob.Record.RecordFileScanner

namespace Miniob.Plan

open Miniob.Common Miniob.Exec Miniob.RecordScan
open Miniob.Storage (RC)

variable {O S E F : Type}

/-- A row on its way through a plan. -/
abbrev Row (O : Type) := Tuple TupleCellSpec (Exec.Value O)

/-! ## Fields -/

structure FieldExpr (O : Type) where
  name : String
  tableName : String
  fieldName : String
  aliasName : String
  field : Option (Table O × ScanField O)

/-- `isspace`. -/
def isSpace (c : Char) : Bool := c.toNat = 32 || (9 ≤ c.toNat && c.toNat ≤ 13)

def isBlank (s : String) : Bool := s.toList.all isSpace

/-- The table that a field belongs to. -/
def tableOf (allTables : NameMap (Table O)) (defaultTable : Option (Table O)) (tables : List (Table O))
    (tableName : String) : Except RC (Table O) :=
  if isBlank tableName = false then
    match allTables tableName with
    | none => .error .schemaTableNotExist
    | some table => .ok table
  else match defaultTable, tables with
    | some table, _ => .ok table
    | none, [table] => .ok table
    | none, _ => .error .schemaFieldMissing

/-- `FieldExpr::check_field`. -/
def checkField (allTables : NameMap (Table O)) (defaultTable : Option (Table O)) (tables : List (Table O))
    (expr : FieldExpr O) : Except RC (FieldExpr O) :=
  if expr.tableName = "*" then .ok expr
  else match tableOf allTables defaultTable tables expr.tableName with
    | .error rc => .error rc
    | .ok table =>
      match table.fields.find? fun field => expr.fieldName = field.fieldName with
      | none => .error .schemaFieldNotExist
      | some field =>
        .ok {
          name := if tables.length > 1 then table.name ++ "." ++ expr.fieldName else expr.fieldName
          tableName := table.name
          fieldName := expr.fieldName
          aliasName :=
            if expr.aliasName ≠ "" then expr.aliasName
            else if tables.length = 1 then expr.fieldName
            else if expr.tableName = "" then table.name ++ "." ++ expr.fieldName
            else expr.tableName ++ "." ++ expr.fieldName
          field := some (table, field) }

/-- What `FieldExpr::get_value` looks for. -/
def FieldExpr.spec (expr : FieldExpr O) : TupleCellSpec := .make expr.tableName expr.fieldName expr.aliasName

/-! ## Identifiers -/

def isIdentifierStart (c : Char) : Bool :=
  (65 ≤ c.toNat && c.toNat ≤ 90) || (97 ≤ c.toNat && c.toNat ≤ 122) || c.toNat = 95

def isIdentifierChar (c : Char) : Bool := isIdentifierStart c || (48 ≤ c.toNat && c.toNat ≤ 57)

/-- `ID` in lex_sql.l. -/
def isIdentifier (s : String) : Bool :=
  match s.toList with
  | [] => false
  | c :: cs => isIdentifierStart c && cs.all isIdentifierChar

/-- An identifier begins with a letter or an underscore. -/
theorem isIdentifier_chars {s : String} (h : isIdentifier s = true) :
    ∃ c cs, s.toList = c :: cs ∧ isIdentifierStart c = true ∧ cs.all isIdentifierChar = true := by
  unfold isIdentifier at h
  cases hs : s.toList with
  | nil =>
    rw [hs] at h
    cases h
  | cons c cs =>
    rw [hs] at h
    obtain ⟨hc, hcs⟩ := Bool.and_eq_true_iff.mp h
    exact ⟨c, cs, rfl, hc, hcs⟩

/-- There is no dot in an identifier. -/
theorem isIdentifier_dot {s : String} (h : isIdentifier s = true) : '.' ∉ s.toList := by
  obtain ⟨c, cs, hs, hc, hcs⟩ := isIdentifier_chars h
  rw [hs]
  intro hdot
  rcases List.mem_cons.mp hdot with rfl | hdot
  · cases hc
  · cases List.all_eq_true.mp hcs '.' hdot

/-- So it is neither empty nor a star. -/
theorem isIdentifier_ne {s : String} (h : isIdentifier s = true) : s ≠ "" ∧ s ≠ "*" ∧ isBlank s = false := by
  obtain ⟨c, cs, hs, hc, -⟩ := isIdentifier_chars h
  refine ⟨?_, ?_, ?_⟩
  · rintro rfl
    cases hs
  · rintro rfl
    obtain ⟨rfl, -⟩ := List.cons.inj hs
    cases hc
  · have hspace : isSpace c = false := by
      simp only [isIdentifierStart, Bool.or_eq_true, Bool.and_eq_true, decide_eq_true_eq] at hc
      simp only [isSpace, Bool.or_eq_false_iff, Bool.and_eq_false_iff, decide_eq_false_iff_not]
      omega
    unfold isBlank
    rw [hs, List.all_cons, hspace, Bool.false_and]

/-! ## Reading a row -/

section RowTuple

variable (table : Table O) (aliasName : String) (record : Record)

def fieldValue (field : ScanField O) : Exec.Value O := field.value ((record.data.drop field.offset).take field.len)

/-- The part of a name before its first dot, if there is one. -/
def beforeDot (name : String) : Option (List Char) :=
  if '.' ∈ name.toList then some (name.toList.takeWhile (· ≠ '.')) else none

/-- `RowTuple::find_cell` asks for the alias only where the name has a dot and is not the table and the field. -/
def aliasDiffers (spec : TupleCellSpec) : Bool :=
  match beforeDot spec.aliasName with
  | none => false
  | some front => spec.aliasName ≠ spec.tableName ++ "." ++ spec.fieldName && front ≠ aliasName.toList

/-- `RowTuple`. -/
def rowTuple : Row O where
  cellNum := table.fields.length
  cellAt index :=
    if index < 0 then .error .invalidArgument
    else match table.fields[index.toNat]? with
      | none => .error .invalidArgument
      | some field => .ok (fieldValue record field)
  specAt index :=
    match table.fields[index.toNat]? with
    | none => .error .internal
    | some field =>
      if aliasName ≠ "" then .ok (.make table.name field.fieldName (aliasName ++ "." ++ field.fieldName))
      else .ok (.make table.name field.fieldName "")
  findCell spec :=
    if spec.tableName ≠ table.name then .error .notfound
    else if aliasDiffers aliasName spec then .error .notfound
    else match table.fields.find? fun field => spec.fieldName = field.fieldName with
      | none => .error .notfound
      | some field => .ok (fieldValue record field)

end RowTuple


/-- A table of the FROM list, with one of its records. -/
structure Part (O : Type) where
  source : FromTable O
  record : Record

def Part.row (p : Part O) : Row O := rowTuple p.source.table p.source.aliasName p.record

/-- The row is joined from these, in this order. -/
inductive Joins : Row O → List (Part O) → Prop where
  | table (p : Part O) : Joins p.row [p]
  | join {l r : Row O} {ls rs : List (Part O)} : Joins l ls → Joins r rs → Joins (joinedTuple l r) (ls ++ rs)

/-- The row of the part has a cell for this. -/
def Part.answers (spec : TupleCellSpec) (p : Part O) : Bool :=
  spec.tableName = p.source.table.name && !aliasDiffers p.source.aliasName spec &&
    (p.source.table.fields.find? fun field => spec.fieldName = field.fieldName).isSome

/-- The cell of the field with this name. -/
def Part.cell (fieldName : String) (p : Part O) : Except RC (Exec.Value O) :=
  match p.source.table.fields.find? fun field => fieldName = field.fieldName with
  | none => .error .notfound
  | some field => .ok (fieldValue p.record field)

/-- A part answers if the specification names it, and then from its record. -/
theorem Part.findCell_row (p : Part O) (spec : TupleCellSpec) :
    p.row.findCell spec = if p.answers spec = true then p.cell spec.fieldName else .error .notfound := by
  show (if spec.tableName ≠ p.source.table.name then _ else if aliasDiffers p.source.aliasName spec then _ else _) = _
  unfold Part.answers Part.cell
  by_cases htable : spec.tableName = p.source.table.name
  · rw [if_neg (not_not_intro htable), decide_eq_true htable]
    cases halias : aliasDiffers p.source.aliasName spec with
    | true => rfl
    | false =>
      cases p.source.table.fields.find? fun field => spec.fieldName = field.fieldName with
      | none => rfl
      | some field => rfl
  · rw [if_pos htable, decide_eq_false htable]
    rfl

theorem Part.cell_of_answers {p : Part O} {spec : TupleCellSpec} (h : p.answers spec = true) :
    ∃ v, p.cell spec.fieldName = .ok v := by
  obtain ⟨-, hfield⟩ := Bool.and_eq_true_iff.mp h
  obtain ⟨field, hfind⟩ := Option.isSome_iff_exists.mp hfield
  exact ⟨fieldValue p.record field, by rw [Part.cell, hfind]⟩

theorem findCell_joinedTuple_notfound {l r : Row O} {spec : TupleCellSpec} (h : l.findCell spec = .error .notfound) :
    (joinedTuple l r).findCell spec = r.findCell spec := by
  dsimp only [joinedTuple]
  rw [h]

theorem findCell_joinedTuple_ok {l r : Row O} {spec : TupleCellSpec} {v : Exec.Value O} (h : l.findCell spec = .ok v) :
    (joinedTuple l r).findCell spec = .ok v := by
  dsimp only [joinedTuple]
  rw [h]

/-- A joined row is read in the first part that answers. -/
theorem findCell_joins {row : Row O} {parts : List (Part O)} (h : Joins row parts) (spec : TupleCellSpec) :
    row.findCell spec =
      ((parts.find? (Part.answers spec)).map fun p => p.cell spec.fieldName).getD (.error .notfound) := by
  induction h with
  | table p =>
    rw [Part.findCell_row]
    split
    case isTrue hp => rw [List.find?_cons_of_pos hp, Option.map_some, Option.getD_some]
    case isFalse hp => rw [List.find?_cons_of_neg hp, List.find?_nil, Option.map_none, Option.getD_none]
  | @join l r ls rs _ _ ihl ihr =>
    rw [List.find?_append]
    cases hleft : ls.find? (Part.answers spec) with
    | none =>
      rw [hleft] at ihl
      rw [findCell_joinedTuple_notfound ihl, ihr, Option.none_or]
    | some p =>
      obtain ⟨v, hv⟩ := Part.cell_of_answers (List.find?_some hleft)
      rw [hleft, Option.map_some, Option.getD_some, hv] at ihl
      rw [findCell_joinedTuple_ok ihl, Option.some_or, Option.map_some, Option.getD_some, hv]

/-! ## Aliases -/

theorem aliasDiffers_dot_free {spec : TupleCellSpec} (h : '.' ∉ spec.aliasName.toList) (aliasName : String) :
    aliasDiffers aliasName spec = false := by
  unfold aliasDiffers beforeDot
  rw [if_neg h]

/-- The alias that `TupleCellSpec` makes when it is given none. -/
theorem aliasDiffers_self {spec : TupleCellSpec} (h : spec.aliasName = spec.tableName ++ "." ++ spec.fieldName)
    (aliasName : String) : aliasDiffers aliasName spec = false := by
  unfold aliasDiffers
  cases beforeDot spec.aliasName with
  | none => rfl
  | some front =>
    dsimp only
    rw [decide_eq_false (not_not_intro h), Bool.false_and]

/-- What is in front of the dot is the qualifier. -/
theorem beforeDot_qualified {q : String} (hq : '.' ∉ q.toList) (f : String) :
    beforeDot (q ++ "." ++ f) = some q.toList := by
  have hlist : (q ++ "." ++ f).toList = q.toList ++ '.' :: f.toList := by
    rw [String.toList_append, String.toList_append, List.append_assoc]
    rfl
  unfold beforeDot
  rw [hlist, if_pos (List.mem_append_right _ List.mem_cons_self), List.takeWhile_append_of_pos,
    List.takeWhile_cons_of_neg (by decide), List.append_nil]
  intro c hc
  exact decide_eq_true fun heq => hq (heq ▸ hc)

/-- The part before the dot is compared with the alias of the row, unless it is the table. -/
theorem aliasDiffers_qualified {spec : TupleCellSpec} {q : String} (hq : '.' ∉ q.toList)
    (h : spec.aliasName = q ++ "." ++ spec.fieldName) (aliasName : String) :
    aliasDiffers aliasName spec = (decide (spec.tableName ≠ q) && decide (q ≠ aliasName)) := by
  have hnames : spec.aliasName ≠ spec.tableName ++ "." ++ spec.fieldName ↔ spec.tableName ≠ q := by
    rw [h]
    refine not_congr ⟨fun heq => ?_, fun heq => by rw [heq]⟩
    exact ((String.append_left_inj _).mp ((String.append_left_inj _).mp heq)).symm
  have hfront : q.toList ≠ aliasName.toList ↔ q ≠ aliasName := not_congr String.toList_inj
  have hdot : beforeDot spec.aliasName = some q.toList := by rw [h, beforeDot_qualified hq]
  unfold aliasDiffers
  rw [hdot]
  exact congrArg₂ and (decide_eq_decide.mpr hnames) (decide_eq_decide.mpr hfront)

theorem qualified_ne (q f : String) : f ≠ q ++ "." ++ f := by
  intro h
  have hlength := congrArg String.length h
  rw [String.length_append, String.length_append] at hlength
  have hdot : ".".length = 1 := rfl
  omega

theorem qualified_ne_of_dot {t q f : String} (ht : '.' ∉ t.toList) : t ≠ q ++ "." ++ f := by
  rintro rfl
  refine ht ?_
  rw [String.toList_append, String.toList_append]
  exact List.mem_append_left _ (List.mem_append_right _ List.mem_cons_self)

/-- The alias of a specification is the one that is given, or the name of the field, or the two names. -/
theorem make_aliasName (t f a : String) : (TupleCellSpec.make t f a).aliasName = a ∨
    (TupleCellSpec.make t f a).aliasName = f ∨ (TupleCellSpec.make t f a).aliasName = t ++ "." ++ f := by
  unfold TupleCellSpec.make
  dsimp only
  split_ifs <;> simp

/-- A name with a dot is kept as the alias of the cell. -/
theorem make_qualified {t q f : String} (ht : '.' ∉ t.toList) :
    (TupleCellSpec.make t f (q ++ "." ++ f)).aliasName = q ++ "." ++ f := by
  have hne : q ++ "." ++ f ≠ "" := by
    intro h
    have hlength := congrArg String.length h
    rw [String.length_append, String.length_append] at hlength
    have hdot : ".".length = 1 := rfl
    have hempty : "".length = 0 := rfl
    omega
  exact if_pos ⟨hne, qualified_ne q f, qualified_ne_of_dot ht⟩

/-! ## What is read -/

section Checked

variable {allTables : NameMap (Table O)} {defaultTable : Option (Table O)} {tables : List (Table O)}
  {expr e : FieldExpr O}

/-- What a check leaves in the expression. -/
theorem checkField_ok (hcheck : checkField allTables defaultTable tables expr = .ok e) (hstar : expr.tableName ≠ "*") :
    ∃ table field, tableOf allTables defaultTable tables expr.tableName = .ok table ∧
      (table.fields.find? fun field => expr.fieldName = field.fieldName) = some field ∧
      e.tableName = table.name ∧ e.fieldName = expr.fieldName ∧ e.field = some (table, field) ∧
      e.aliasName = (if expr.aliasName ≠ "" then expr.aliasName
        else if tables.length = 1 then expr.fieldName
        else if expr.tableName = "" then table.name ++ "." ++ expr.fieldName
        else expr.tableName ++ "." ++ expr.fieldName) := by
  unfold checkField at hcheck
  rw [if_neg hstar] at hcheck
  cases htable : tableOf allTables defaultTable tables expr.tableName with
  | error rc =>
    rw [htable] at hcheck
    cases hcheck
  | ok table =>
    rw [htable] at hcheck
    dsimp only at hcheck
    cases hfield : table.fields.find? fun field => expr.fieldName = field.fieldName with
    | none =>
      rw [hfield] at hcheck
      cases hcheck
    | some field =>
      rw [hfield] at hcheck
      obtain rfl := Except.ok.inj hcheck
      exact ⟨table, field, rfl, hfield, rfl, rfl, rfl, rfl⟩

/-- Where the table comes from. -/
theorem tableOf_ok {tableName : String} {table : Table O}
    (h : tableOf allTables defaultTable tables tableName = .ok table) :
    (tableName ≠ "" ∧ allTables tableName = some table) ∨ table ∈ defaultTable ∨ tables = [table] := by
  unfold tableOf at h
  split at h
  case isTrue hblank =>
    have hne : tableName ≠ "" := by
      rintro rfl
      cases hblank
    cases hall : allTables tableName with
    | none =>
      rw [hall] at h
      cases h
    | some t =>
      rw [hall] at h
      exact Or.inl ⟨hne, congrArg some (Except.ok.inj h)⟩
  case isFalse =>
    split at h
    · exact Or.inr (Or.inl (congrArg some (Except.ok.inj h)))
    · exact Or.inr (Or.inr (congrArg (fun t => [t]) (Except.ok.inj h)))
    · cases h

/-- The part has the field, if it is of the same table. -/
theorem Part.answers_eq {p : Part O} {spec : TupleCellSpec} {table : Table O} {field : ScanField O}
    (htable : spec.tableName = table.name) (hsame : p.source.table.name = table.name → p.source.table = table)
    (hfield : (table.fields.find? fun field => spec.fieldName = field.fieldName) = some field) :
    p.answers spec = (decide (p.source.table.name = table.name) && !aliasDiffers p.source.aliasName spec) := by
  unfold Part.answers
  rw [htable]
  by_cases hname : p.source.table.name = table.name
  · rw [hsame hname, hfield]
    simp
  · rw [decide_eq_false hname, decide_eq_false (Ne.symm hname)]
    rfl

theorem Part.cell_eq {p : Part O} {table : Table O} {field : ScanField O} {fieldName : String}
    (hsame : p.source.table = table)
    (hfield : (table.fields.find? fun field => fieldName = field.fieldName) = some field) :
    p.cell fieldName = .ok (fieldValue p.record field) := by
  unfold Part.cell
  rw [hsame, hfield]

end Checked

section Reads

variable {catalog : Catalog O} {fromList : List RelAttrSqlNode} {s : FromNames O} {defaultTable : Option (Table O)}
  {expr e : FieldExpr O} {row : Row O} {parts : List (Part O)}

/-- Tables of one name are one table. -/
theorem Catalog.eq_of_name {t t' : Table O} (ht : ∃ name, catalog.findTable name = some t)
    (ht' : ∃ name, catalog.findTable name = some t') (h : t.name = t'.name) : t = t' := by
  obtain ⟨name, hname⟩ := ht
  obtain ⟨name', hname'⟩ := ht'
  obtain rfl := catalog.name_eq hname
  obtain rfl := catalog.name_eq hname'
  rw [h, hname'] at hname
  exact (Option.some.inj hname).symm

/-- Each entry comes from a relation of the list. -/
theorem exists_of_entries {rel : List RelAttrSqlNode} {entries : List (FromTable O)}
    (h : List.Forall₂ (EntryOf catalog) rel entries) {entry : FromTable O} (hentry : entry ∈ entries) :
    ∃ r ∈ rel, catalog.findTable r.relationName = some entry.table := by
  induction h with
  | nil => cases hentry
  | @cons r e rel entries hfirst _ ih =>
    rcases List.mem_cons.mp hentry with rfl | hentry
    · exact ⟨r, List.mem_cons_self, hfirst.1⟩
    · obtain ⟨r', hr', hfind⟩ := ih hentry
      exact ⟨r', List.mem_cons_of_mem r hr', hfind⟩

/-- FROM t a, t b. -/
def selfJoin : List RelAttrSqlNode := [⟨"t", "", "a"⟩, ⟨"t", "", "b"⟩]

def selfJoinNames : FromNames (List UInt8) where
  aliasSet := ["b", "a"]
  aliasMap := NameMap.emplace (NameMap.emplace (fun _ => none) "t" "a") "t" "b"
  allTables := ["a", "t", "b", "t"].foldl (fun m name => NameMap.emplace m name idTable) fun _ => none
  tables := [idTable, idTable]
  tableAlias := ["a", "b"]

/-- A record of each. -/
def selfJoinParts : List (Part (List UInt8)) :=
  [⟨⟨idTable, "a"⟩, ⟨⟨1, 0⟩, [1]⟩⟩, ⟨⟨idTable, "b"⟩, ⟨⟨1, 1⟩, [2]⟩⟩]

def selfJoinRow : Row (List UInt8) := joinedTuple (rowTuple idTable "a" ⟨⟨1, 0⟩, [1]⟩) (rowTuple idTable "b" ⟨⟨1, 1⟩, [2]⟩)

theorem joins_selfJoin : Joins selfJoinRow selfJoinParts :=
  .join (.table ⟨⟨idTable, "a"⟩, ⟨⟨1, 0⟩, [1]⟩⟩) (.table ⟨⟨idTable, "b"⟩, ⟨⟨1, 1⟩, [2]⟩⟩)

/-- **Under a column alias, or in a statement over one table, only the table counts**: what is read is the first row of
that table, which for a table that is there twice need not be the one that was written. -/
theorem unqualified_alias_reads {outside : NameMap (Table O)} (hfrom : checkAliases catalog outside fromList = .ok s)
    (houtside : ∀ name table, outside name = some table → ∃ n, catalog.findTable n = some table)
    (hdefault : ∀ table ∈ defaultTable, table ∈ s.tables)
    (hcheck : checkField s.allTables defaultTable s.tables expr = .ok e) (hstar : expr.tableName ≠ "*")
    (hfieldName : isIdentifier expr.fieldName = true)
    (halias : isIdentifier expr.aliasName = true ∨ expr.aliasName = "" ∧ s.tables.length = 1)
    (hrow : Joins row parts) (hparts : ∀ p ∈ parts, ∃ n, catalog.findTable n = some p.source.table) :
    ∃ table field, e.field = some (table, field) ∧ row.findCell e.spec =
      ((parts.find? fun p => p.source.table.name = table.name).map fun p => .ok (fieldValue p.record field)).getD
        (.error .notfound) := by
  obtain ⟨hlists, hentries⟩ := checkAliases_lists hfrom
  obtain ⟨table, field, htable, hfield, hname, hspecField, hbound, haliasName⟩ := checkField_ok hcheck hstar
  have htables : ∀ t ∈ s.tables, ∃ n, catalog.findTable n = some t := by
    intro t ht
    rw [hlists.tables] at ht
    obtain ⟨entry, hentry, rfl⟩ := List.mem_map.mp ht
    obtain ⟨rel, -, hrel⟩ := exists_of_entries hentries hentry
    exact ⟨_, hrel⟩
  have hcatalog : ∃ n, catalog.findTable n = some table := by
    rcases tableOf_ok htable with ⟨hnone, hall⟩ | hdef | hone
    · rw [hlists.allTables _ hnone] at hall
      rcases Option.or_eq_some_iff.mp hall with hout | ⟨-, hown⟩
      · exact houtside _ _ hout
      · obtain ⟨entry, hfind, rfl⟩ := Option.map_eq_some_iff.mp hown
        obtain ⟨rel, -, hrel⟩ := exists_of_entries hentries (List.mem_of_find?_eq_some hfind)
        exact ⟨_, hrel⟩
    · exact htables _ (hdefault _ hdef)
    · exact htables _ (hone ▸ List.mem_cons_self)
  -- no dot comes from the alias, and with its own dot the specification is that of the table
  have hdotField : '.' ∉ expr.fieldName.toList := isIdentifier_dot hfieldName
  have hdotAlias : '.' ∉ e.aliasName.toList := by
    rw [haliasName]
    rcases halias with halias | ⟨hempty, hone⟩
    · rw [if_pos (isIdentifier_ne halias).1]
      exact isIdentifier_dot halias
    · rw [if_neg (not_not_intro hempty), if_pos hone]
      exact hdotField
  have hdiffers : ∀ aliasName, aliasDiffers aliasName e.spec = false := by
    intro aliasName
    rcases make_aliasName e.tableName e.fieldName e.aliasName with h | h | h
    · exact aliasDiffers_dot_free (by rw [FieldExpr.spec, h]; exact hdotAlias) aliasName
    · exact aliasDiffers_dot_free (by rw [FieldExpr.spec, h, hspecField]; exact hdotField) aliasName
    · exact aliasDiffers_self h aliasName
  rw [← hspecField] at hfield
  have hsame : ∀ p ∈ parts, p.source.table.name = table.name → p.source.table = table := by
    intro p hp heq
    exact Catalog.eq_of_name (hparts p hp) hcatalog heq
  have hfirst : parts.find? (Part.answers e.spec) = parts.find? fun p => p.source.table.name = table.name := by
    refine List.find?_congr fun p hp => ?_
    rw [Part.answers_eq hname (hsame p hp) hfield, hdiffers, Bool.not_false, Bool.and_true]
  refine ⟨table, field, hbound, ?_⟩
  rw [findCell_joins hrow, hfirst]
  cases hfind : parts.find? fun p => p.source.table.name = table.name with
  | none => rfl
  | some p =>
    obtain ⟨heq, -⟩ := List.find?_eq_some_iff_append.mp hfind
    rw [decide_eq_true_eq] at heq
    exact Part.cell_eq (hsame p (List.mem_of_find?_eq_some hfind) heq) hfield

/-- SELECT b.id AS y FROM t a, t b gives the identifiers of a. -/
theorem unqualified_alias_reads_selfJoin :
    let e : FieldExpr (List UInt8) := ⟨"t.id", "t", "id", "y", some (idTable, ⟨"id", 0, 1, .other⟩)⟩
    checkField selfJoinNames.allTables none selfJoinNames.tables ⟨"", "b", "id", "y", none⟩ = .ok e ∧
      selfJoinRow.findCell e.spec = .ok (.other [1]) := by
  intro e
  have hfrom : checkAliases idCatalog (fun _ => none) selfJoin = .ok selfJoinNames := rfl
  have hcheck : checkField selfJoinNames.allTables none selfJoinNames.tables ⟨"", "b", "id", "y", none⟩ = .ok e := rfl
  have hparts : ∀ p ∈ selfJoinParts, ∃ n, idCatalog.findTable n = some p.source.table := by
    intro p hp
    rcases List.mem_cons.mp hp with rfl | hp
    · exact ⟨"t", rfl⟩
    · obtain rfl := List.mem_singleton.mp hp
      exact ⟨"t", rfl⟩
  refine ⟨hcheck, ?_⟩
  obtain ⟨table, field, hfield, hcell⟩ := unqualified_alias_reads hfrom (fun _ _ h => nomatch h)
    (fun _ h => Option.not_mem_none _ h |>.elim) hcheck (by decide) (by decide) (.inl (by decide)) joins_selfJoin hparts
  obtain ⟨rfl, rfl⟩ := Prod.mk.inj (Option.some.inj hfield)
  exact hcell

end Reads

end Miniob.Plan
