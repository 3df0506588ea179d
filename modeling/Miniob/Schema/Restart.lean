/-
  A schema over a restart (`Table::create`, `create_index` and `open` in
  src/observer/storage/table/table.cpp, `CreateIndexStmt::create` in src/observer/sql/stmt/create_index_stmt.cpp).

  1. `Reachable`: a table is created with one of the transaction kits, and indexes are added to it.  Each step
     leaves the text of the metadata in the file, and the header page of a new index.
  2. `Kept` is what each step preserves: the table is laid out, its text is in the file, and the tree of each
     index was created from the fields the index names.
  3. `survives_restart_iff`: after such a run the restart brings back the schema, exactly if no index has more
     than the 20 fields for which its header has room.

  The copy of the metadata that an index is added to has no hidden fields; `swap` leaves those of the table
  where they are.
-/
import Miniob.Common.Related
import Miniob.Schema.IndexFileHeader

namespace Miniob.Schema

open Miniob.Common Miniob.Storage

/-! ## Runs -/

/-- The transaction kits. -/
inductive TrxKit where
  | vacuous
  | mvcc
  deriving DecidableEq

/-- `trx_fields`. -/
def TrxKit.trxFields : TrxKit → Option (List FieldMeta)
  | vacuous => none
  | mvcc => some [⟨"__trx_xid_begin", .ints, 0, 4, false, -1, false⟩, ⟨"__trx_xid_end", .ints, 0, 4, false, -2, false⟩]

namespace TableMeta

/-- `Table::create`. -/
def create (kit : TrxKit) (tableId : Int32) (name : String) (attributes : List AttrInfo) (storageFormat : Int32) :
    Except RC TableMeta :=
  if tableId < 0 then .error .invalidArgument
  else TableMeta.init tableId name kit.trxFields attributes storageFormat

/-- The copy constructor. -/
def copy (other : TableMeta) : TableMeta := { other with trxFields := [] }

def addIndex (table : TableMeta) (index : IndexMeta) : TableMeta :=
  { table with indexes := table.indexes ++ [index] }

/-- `swap`, what it does to the first. -/
def swap (table other : TableMeta) : TableMeta :=
  { table with name := other.name, fields := other.fields, indexes := other.indexes, recordSize := other.recordSize }

end TableMeta

/-- A table, the file of its metadata, and for each index the header page and the handler as they were created. -/
structure StoredTable (T : Type) where
  table : TableMeta
  metaFile : T
  trees : List (Memory × Tree)

section Steps

variable {T : Type} (json : Json.Library String String T)

/-- `CREATE INDEX` on a page that was just allocated; `none` if it is refused. -/
def StoredTable.createIndex (s : StoredTable T) (indexName : String) (attrNames : List String) (unique : Bool) (page : Memory) :
    Option (StoredTable T) := do
  let fields ← attrNames.mapM s.table.field
  let index ← (IndexMeta.init indexName fields unique).toOption
  let newTable := s.table.copy.addIndex index
  some ⟨s.table.swap newTable, newTable.serialize json, s.trees ++ [create page fields unique (-1) (-1)]⟩

inductive Reachable : StoredTable T → Prop where
  | create {kit : TrxKit} {tableId : Int32} {name : String} {attributes : List AttrInfo} {storageFormat : Int32}
      {table : TableMeta} : TableMeta.create kit tableId name attributes storageFormat = .ok table →
      Reachable ⟨table, table.serialize json, []⟩
  | createIndex {s s' : StoredTable T} {indexName : String} {attrNames : List String} {unique : Bool} {page : Memory} :
      Reachable s → s.createIndex json indexName attrNames unique page = some s' → Reachable s'

/-- The tree of an index is opened as it was created, with the fields that the table has for its names. -/
def Reopens (table : TableMeta) (index : IndexMeta) (tree : Memory × Tree) : Prop :=
  ∃ fields, index.fields.mapM table.field = some fields ∧ ∀ behind, openTree tree.1 behind fields = tree.2

/-- The metadata that is read is that of the table, and every index is as it was created. -/
structure Restored (s : StoredTable T) (table : TableMeta) : Prop where
  tableId : table.tableId = s.table.tableId
  name : table.name = s.table.name
  fields : table.fields = s.table.fields
  recordSize : table.recordSize = s.table.recordSize
  storageFormat : table.storageFormat = s.table.storageFormat
  sysFieldNum : table.sysFieldNum = s.table.sysFieldNum
  indexes : table.indexes = s.table.indexes
  trees : List.Forall₂ (Reopens table) table.indexes s.trees

def SurvivesRestart (s : StoredTable T) : Prop :=
  ∃ table, TableMeta.deserialize json s.metaFile = some table ∧ Restored s table

end Steps

/-! ## Creation -/

theorem initFields_spec : ∀ (attributes : List AttrInfo) (fieldOffset : Int32) (i : Nat)
    (columns : List FieldMeta × Int32), TableMeta.initFields fieldOffset i attributes = .ok columns →
      Chained fieldOffset columns.2 columns.1 ∧ (∀ f ∈ columns.1, f.Valid ∧ f.visible = true) ∧
        (attributes ≠ [] → columns.1 ≠ [])
  | [], fieldOffset, i, columns, h => by
    obtain rfl := Except.ok.inj h
    exact ⟨rfl, fun f hf => absurd hf List.not_mem_nil, fun hne => absurd rfl hne⟩
  | attrInfo :: attributes, fieldOffset, i, columns, h => by
    rw [TableMeta.initFields] at h
    obtain ⟨field, hfield, h⟩ := ok_of_bind h
    obtain ⟨rest, hrest, h⟩ := ok_of_bind h
    obtain rfl := Except.ok.inj h
    obtain ⟨hchained, hvalid, -⟩ := initFields_spec attributes _ _ rest hrest
    obtain ⟨hf, hfvalid⟩ := FieldMeta.init_eq_ok.mp hfield
    refine ⟨⟨?_, ?_⟩, List.forall_mem_cons.mpr ⟨⟨hfvalid, ?_⟩, hvalid⟩, fun _ => List.cons_ne_nil _ _⟩
    · rw [hf]
    · rw [hf]
      exact hchained
    · rw [hf]

/-- The hidden fields of a kit, as `init` lays them out. -/
theorem initTrxFields_spec (kit : TrxKit) :
    Chained 0 (TableMeta.initTrxFields 0 (kit.trxFields.getD [])).2
        (TableMeta.initTrxFields 0 (kit.trxFields.getD [])).1 ∧
      (∀ f ∈ (TableMeta.initTrxFields 0 (kit.trxFields.getD [])).1, f.Valid ∧ f.visible = false) ∧
      (TableMeta.initTrxFields 0 (kit.trxFields.getD [])).1.length = (kit.trxFields.getD []).length := by
  cases kit with
  | vacuous => exact ⟨rfl, fun f hf => absurd hf List.not_mem_nil, rfl⟩
  | mvcc =>
    refine ⟨⟨rfl, rfl, rfl⟩, fun f hf => ?_, rfl⟩
    have hcases : f = ⟨"__trx_xid_begin", .ints, 0, 4, false, -1, false⟩ ∨
        f = ⟨"__trx_xid_end", .ints, 4, 4, false, -2, false⟩ := by
      rcases List.mem_cons.mp hf with h | h
      · exact Or.inl h
      · exact Or.inr (List.mem_singleton.mp h)
    rcases hcases with rfl | rfl
    · exact ⟨⟨by decide, by decide, by decide, by decide⟩, rfl⟩
    · exact ⟨⟨by decide, by decide, by decide, by decide⟩, rfl⟩

theorem filter_eq_self_of_forall {fields : List FieldMeta} {b : Bool} (h : ∀ f ∈ fields, f.visible = b) :
    (fields.filter fun f => !f.visible) = if b then [] else fields := by
  cases b with
  | true => exact List.filter_eq_nil_iff.mpr fun f hf => by simp [h f hf]
  | false => exact List.filter_eq_self.mpr fun f hf => by simp [h f hf]

/-- **A table that is created** is laid out, and has no indexes. -/
theorem laid_create {kit : TrxKit} {tableId : Int32} {name : String} {attributes : List AttrInfo}
    {storageFormat : Int32} {table : TableMeta}
    (h : TableMeta.create kit tableId name attributes storageFormat = .ok table) :
    Laid table ∧ table.indexes = [] := by
  rw [TableMeta.create] at h
  split_ifs at h with hid
  rw [TableMeta.init] at h
  split_ifs at h with hname hsome
  obtain ⟨columns, hcolumns, h⟩ := ok_of_bind h
  obtain rfl := Except.ok.inj h
  obtain ⟨hchained, hvalid, hne⟩ := initFields_spec attributes _ 0 columns hcolumns
  obtain ⟨hhidden, hhvalid, hcount⟩ := initTrxFields_spec kit
  refine ⟨⟨?_, ?_, hhidden.append hchained, ?_, fun index hindex => absurd hindex List.not_mem_nil⟩, rfl⟩
  · exact List.append_ne_nil_of_right_ne_nil _ (hne fun hnil => hsome (List.isEmpty_iff.mpr hnil))
  · intro f hf
    rcases List.mem_append.mp hf with hf | hf
    · exact (hhvalid f hf).1
    · exact (hvalid f hf).1
  · show (kit.trxFields.getD []).length = _
    rw [List.filter_append, filter_eq_self_of_forall fun f hf => (hhvalid f hf).2,
      filter_eq_self_of_forall fun f hf => (hvalid f hf).2, if_neg Bool.false_ne_true, if_pos rfl, List.append_nil,
      hcount]

/-! ## What every step preserves -/

section Invariant

variable {T : Type} {json : Json.Library String String T} {s s' : StoredTable T}

/-- The tree of an index was created from the fields it names. -/
def CreatedFrom (table : TableMeta) (index : IndexMeta) (tree : Memory × Tree) : Prop :=
  ∃ page fields, index.fields.mapM table.field = some fields ∧ tree = create page fields index.unique (-1) (-1)

variable (json) in
/-- A table as it is created, its meta file and the trees of its indexes. -/
structure StoredTable.Ok (s : StoredTable T) : Prop where
  laid : Laid s.table
  /-- The file has the metadata. -/
  file : s.metaFile = s.table.serialize json
  /-- Every tree was created from it. -/
  trees : List.Forall₂ (CreatedFrom s.table) s.table.indexes s.trees

theorem field_congr {table table' : TableMeta} (h : table'.fields = table.fields) : table'.field = table.field := by
  funext name
  rw [TableMeta.field, TableMeta.field, h]

/-- The names of the fields that were found are the names that were looked up. -/
theorem names_of_mapM {table : TableMeta} {names : List String} {fields : List FieldMeta}
    (h : names.mapM table.field = some fields) : fields.map FieldMeta.name = names := by
  have hfound := mapM_eq_some_iff.mp h
  clear h
  induction hfound with
  | nil => rfl
  | cons hf _ ih => rw [List.map_cons, ih, TableMeta.name_of_field hf]

/-- The index that `init` makes of fields of the table. -/
theorem index_of_init {table : TableMeta} {indexName : String} {attrNames : List String} {unique : Bool}
    {fields : List FieldMeta} {index : IndexMeta} (hfields : attrNames.mapM table.field = some fields)
    (h : IndexMeta.init indexName fields unique = .ok index) :
    index = ⟨indexName, attrNames, unique⟩ ∧ index.Valid table := by
  rw [IndexMeta.init] at h
  split_ifs at h with hname hblank
  obtain rfl := Except.ok.inj h
  rw [names_of_mapM hfields]
  refine ⟨rfl, Bool.eq_false_iff.mpr hname, fun name hmem => ?_⟩
  rw [List.any_eq_true, not_exists] at hblank
  have hfound := mapM_eq_some_iff.mp hfields
  obtain ⟨f, hf, hlookup⟩ : ∃ f ∈ fields, table.field name = some f := by
    obtain ⟨f, hf, heq⟩ := exists_of_forall₂ hfound.flip name hmem
    exact ⟨f, hf, heq⟩
  exact ⟨f, hlookup, Bool.eq_false_iff.mpr fun h => hblank f ⟨hf, h⟩⟩

theorem StoredTable.Ok.create {kit : TrxKit} {tableId : Int32} {name : String} {attributes : List AttrInfo}
    {storageFormat : Int32} {table : TableMeta}
    (h : TableMeta.create kit tableId name attributes storageFormat = .ok table) :
    StoredTable.Ok json ⟨table, table.serialize json, []⟩ := by
  obtain ⟨hlaid, hnone⟩ := laid_create h
  refine ⟨hlaid, rfl, ?_⟩
  dsimp only
  rw [hnone]
  exact .nil

/-- **Step.** -/
theorem StoredTable.Ok.createIndex (h : s.Ok json) {indexName : String} {attrNames : List String} {unique : Bool} {page : Memory}
    (hcreate : s.createIndex json indexName attrNames unique page = some s') : s'.Ok json := by
  rw [StoredTable.createIndex, Option.bind_eq_bind, Option.bind_eq_some_iff] at hcreate
  obtain ⟨fields, hfields, hcreate⟩ := hcreate
  rw [Option.bind_eq_bind, Option.bind_eq_some_iff] at hcreate
  obtain ⟨index, hinit, hcreate⟩ := hcreate
  obtain rfl := Option.some.inj hcreate
  cases hindex : IndexMeta.init indexName fields unique with
  | error rc =>
    rw [hindex] at hinit
    cases hinit
  | ok index' =>
    rw [hindex] at hinit
    obtain rfl : index' = index := Option.some.inj hinit
    obtain ⟨heq, hvalid⟩ := index_of_init hfields hindex
    refine ⟨⟨h.laid.some, h.laid.valid, h.laid.chained, h.laid.hidden, fun i hi => ?_⟩, rfl, ?_⟩
    · rcases List.mem_append.mp hi with hi | hi
      · exact (h.laid.indexes i hi).congr rfl
      · rw [List.mem_singleton.mp hi]
        exact hvalid.congr rfl
    · refine List.rel_append (h.trees.imp fun i t ht => ht) (.cons ⟨page, fields, ?_, ?_⟩ .nil)
      · rw [heq]
        exact hfields
      · rw [heq]

theorem Reachable.ok (h : Reachable json s) : s.Ok json := by
  induction h with
  | create hcreate => exact .create hcreate
  | createIndex _ hcreate ih => exact ih.createIndex hcreate

/-! ## The restart -/

theorem length_of_mapM {table : TableMeta} {names : List String} {fields : List FieldMeta}
    (h : names.mapM table.field = some fields) : names.length = fields.length :=
  (mapM_eq_some_iff.mp h).length_eq

/-- The tree of one index. -/
theorem reopens_iff {table table' : TableMeta} {index : IndexMeta} {tree : Memory × Tree}
    (h : CreatedFrom table index tree) (hfields : table'.fields = table.fields) :
    Reopens table' index tree ↔ index.fields.length ≤ IndexFileHeader.maxAttrs := by
  obtain ⟨page, fields, hnames, rfl⟩ := h
  have hnames' : index.fields.mapM table'.field = some fields := by rw [field_congr hfields, hnames]
  have hopens : Reopens table' index (create page fields index.unique (-1) (-1)) ↔
      ∀ behind, openTree (create page fields index.unique (-1) (-1)).1 behind fields
        = (create page fields index.unique (-1) (-1)).2 := by
    constructor
    · intro hre behind
      obtain ⟨fields', heq, hopen⟩ := hre
      rw [hnames'] at heq
      rw [← Option.some.inj heq] at hopen
      exact hopen behind
    · exact fun hopen => ⟨fields, hnames', hopen⟩
  rw [length_of_mapM hnames]
  exact hopens.trans open_create_iff

theorem reopens_all_iff {table table' : TableMeta} {indexes : List IndexMeta} {trees : List (Memory × Tree)}
    (h : List.Forall₂ (CreatedFrom table) indexes trees) (hfields : table'.fields = table.fields) :
    List.Forall₂ (Reopens table') indexes trees ↔
      ∀ index ∈ indexes, index.fields.length ≤ IndexFileHeader.maxAttrs := by
  induction h with
  | nil => exact iff_of_true .nil fun index hindex => absurd hindex List.not_mem_nil
  | cons hcreated _ ih => rw [List.forall₂_cons, List.forall_mem_cons, reopens_iff hcreated hfields, ih]

/-- **A schema survives a restart** exactly if no index has more fields than its header has room for. -/
theorem survives_restart_iff (h : Reachable json s) :
    SurvivesRestart json s ↔ ∀ index ∈ s.table.indexes, index.fields.length ≤ 20 := by
  have hok := h.ok
  constructor
  · rintro ⟨table, -, hrestored⟩
    have htrees := hrestored.trees
    rw [hrestored.indexes] at htrees
    exact (reopens_all_iff hok.trees hrestored.fields).mp htrees
  · intro hroom
    have hread := TableMeta.deserialize_serialize json hok.laid fun index hindex =>
      Nat.lt_of_le_of_lt (hroom index hindex) (by decide)
    rw [← hok.file] at hread
    refine ⟨_, hread, rfl, rfl, rfl, rfl, rfl, hok.laid.hidden.symm, rfl, ?_⟩
    exact (reopens_all_iff hok.trees rfl).mpr hroom

end Invariant

/-! ## An index on 21 fields -/

/-- Values that are kept as they are. -/
def asTheyAre : Json.Library String String (Json String String) where
  write v := v
  parse := some
  faithful _ _ := rfl

/-- `CREATE TABLE t(a INT)`. -/
def sampleTable : TableMeta :=
  ⟨1, "t", [], [⟨"a", .ints, 0, 4, true, 0, false⟩], [], 1, 4⟩

theorem sampleTable_created :
    TableMeta.create .vacuous 1 "t" [⟨.ints, "a", 4, false⟩] 1 = .ok sampleTable := by
  decide

/-- `CREATE INDEX i ON t(a, ..., a)`. -/
theorem sampleTable_index (page : Memory) (n : Nat) : ∃ s : StoredTable (Json String String),
    Reachable asTheyAre s ∧ s.table.indexes = [⟨"i", List.replicate n "a", false⟩] := by
  have hcreated : Reachable asTheyAre ⟨sampleTable, sampleTable.serialize asTheyAre, []⟩ :=
    .create sampleTable_created
  have hfields : (List.replicate n "a").mapM sampleTable.field
      = some (List.replicate n ⟨"a", .ints, 0, 4, true, 0, false⟩) := by
    rw [mapM_eq_some_iff]
    induction n with
    | zero => exact .nil
    | succ n ih => exact .cons (by decide) ih
  have hindex : IndexMeta.init "i" (List.replicate n ⟨"a", .ints, 0, 4, true, 0, false⟩) false
      = .ok ⟨"i", List.replicate n "a", false⟩ := by
    have hany : ¬ (List.replicate n (⟨"a", .ints, 0, 4, true, 0, false⟩ : FieldMeta)).any
        (fun field => isBlank field.name) = true := by
      rw [List.any_eq_true]
      rintro ⟨f, hf, hblank⟩
      rw [List.eq_of_mem_replicate hf] at hblank
      exact absurd hblank (by decide)
    rw [IndexMeta.init, if_neg (by decide), if_neg hany, List.map_replicate]
  have hstep : StoredTable.createIndex asTheyAre ⟨sampleTable, sampleTable.serialize asTheyAre, []⟩ "i"
      (List.replicate n "a") false page
        = some ⟨sampleTable.swap (sampleTable.copy.addIndex ⟨"i", List.replicate n "a", false⟩),
            (sampleTable.copy.addIndex ⟨"i", List.replicate n "a", false⟩).serialize asTheyAre,
            [create page (List.replicate n ⟨"a", .ints, 0, 4, true, 0, false⟩) false (-1) (-1)]⟩ := by
    rw [StoredTable.createIndex, hfields, Option.bind_eq_bind, Option.bind_some, hindex]
    rfl
  exact ⟨_, hcreated.createIndex hstep, rfl⟩

/-- With one field the index is as it was. -/
theorem survives_restart_iff_one : ∃ s : StoredTable (Json String String),
    s.table.indexes = [⟨"i", ["a"], false⟩] ∧
      (SurvivesRestart asTheyAre s ↔ ∀ index ∈ s.table.indexes, index.fields.length ≤ 20) := by
  obtain ⟨s, hs, hindexes⟩ := sampleTable_index (fun _ => 0) 1
  exact ⟨s, hindexes, survives_restart_iff hs⟩

/-- With 21 fields it is not. -/
theorem survives_restart_not_always :
    ¬ ∀ s : StoredTable (Json String String), Reachable asTheyAre s → SurvivesRestart asTheyAre s := by
  intro h
  obtain ⟨s, hs, hindexes⟩ := sampleTable_index (fun _ => 0) 21
  obtain ⟨table, -, hrestored⟩ := h s hs
  have htrees := hrestored.trees
  rw [hrestored.indexes] at htrees
  have hroom := (reopens_all_iff hs.ok.trees hrestored.fields).mp htrees
  rw [hindexes] at hroom
  have hlen := hroom _ List.mem_cons_self
  rw [List.length_replicate] at hlen
  exact absurd hlen (by decide)

end Miniob.Schema
