/-
  The metadata of a table and its text (`TableMeta` in src/observer/storage/table/table_meta.cpp,
  `FieldMeta` in src/observer/storage/field/field_meta.cpp, `IndexMeta` in
  src/observer/storage/index/index_meta.cpp).

  1. A field, an index and a table are written as JSON objects and read with the checks of the source.
     A text that is refused ends in `none`, be it by a check or by an exception of the JSON library.
  2. Not everything is written: the order of the fields, the size of a record and the hidden fields are
     found again on reading.
  3. `Laid`: the fields lie one behind the other from 0 on, none of them empty.  Every table that is
     created is laid so, since each offset is checked not to be negative.
  4. `fromJson_toJson`: a table that is laid, with its hidden fields counted, is read as it was written;
     `deserialize_serialize` says so of its text.

  Offsets and lengths are `int`s and overflow as such.  Names are C strings, so that none has a NUL.
-/
import Mathlib.Data.String.Basic
import Miniob.Common.Json
import Miniob.Common.Run
import Miniob.Storage.Types

namespace Miniob.Schema

open Miniob.Common Miniob.Storage

/-! ## The data -/

/-- `enum class AttrType : int8_t`, all of it: a meta file can hold any of the names. -/
inductive AttrType where
  | undefined
  | dates
  | nulls
  | chars
  | ints
  | floats
  | vectors
  | booleans
  deriving DecidableEq, Repr

/-- `ATTR_TYPE_NAME`; behind these it has `dates` again, for `MAXTYPE`. -/
def attrTypeName : List (String × AttrType) :=
  [("undefined", .undefined), ("dates", .dates), ("nulls", .nulls), ("chars", .chars), ("ints", .ints),
    ("floats", .floats), ("vectors", .vectors), ("booleans", .booleans)]

def attrTypeToString (type : AttrType) : String :=
  ((attrTypeName.find? fun e => decide (e.2 = type)).map Prod.fst).getD "unknown"

/-- `strcasecmp` answers 0. -/
def sameIgnoringCase (s1 s2 : String) : Bool :=
  decide (s1.toList.map Char.toLower = s2.toList.map Char.toLower)

def attrTypeFromString (s : String) : AttrType :=
  ((attrTypeName.find? fun e => sameIgnoringCase e.1 s).map Prod.snd).getD .undefined

/-- `is_blank`. -/
def isBlank (s : String) : Bool := s.toList.all fun c => c = ' ' ∨ (9 ≤ c.toNat ∧ c.toNat ≤ 13)

/-- `FieldMeta`. -/
structure FieldMeta where
  name : String
  type : AttrType
  offset : Int32
  len : Int32
  visible : Bool
  fieldId : Int32
  nullable : Bool
  deriving DecidableEq, Repr

structure IndexMeta where
  name : String
  fields : List String
  unique : Bool
  deriving DecidableEq, Repr

/-- `TableMeta`. -/
structure TableMeta where
  tableId : Int32
  name : String
  trxFields : List FieldMeta
  fields : List FieldMeta
  indexes : List IndexMeta
  storageFormat : Int32
  recordSize : Int32
  deriving DecidableEq, Repr

/-- `struct AttrInfoSqlNode`: a column as the statement gives it. -/
structure AttrInfo where
  type : AttrType
  name : String
  length : Nat
  nullable : Bool

def FieldMeta.init (name : String) (type : AttrType) (offset len : Int32) (visible : Bool) (fieldId : Int32)
    (nullable : Bool) : Except RC FieldMeta :=
  if isBlank name then .error .invalidArgument
  else if type = .undefined ∨ offset < 0 ∨ len ≤ 0 then .error .invalidArgument
  else .ok ⟨name, type, offset, len, visible, fieldId, nullable⟩

def IndexMeta.init (name : String) (fieldsMeta : List FieldMeta) (unique : Bool) : Except RC IndexMeta :=
  if isBlank name then .error .invalidArgument
  else if fieldsMeta.any fun field => isBlank field.name then .error .invalidArgument
  else .ok ⟨name, fieldsMeta.map FieldMeta.name, unique⟩

namespace TableMeta

/-- The first loop of `init`: the hidden fields, and the offset behind them. -/
def initTrxFields (fieldOffset : Int32) : List FieldMeta → List FieldMeta × Int32
  | [] => ([], fieldOffset)
  | f :: trxFields =>
    let rest := initTrxFields (fieldOffset + f.len) trxFields
    (⟨f.name, f.type, fieldOffset, f.len, false, f.fieldId, false⟩ :: rest.1, rest.2)

/-- The second loop of `init`: the columns from the `i`-th on. -/
def initFields (fieldOffset : Int32) (i : Nat) : List AttrInfo → Except RC (List FieldMeta × Int32)
  | [] => .ok ([], fieldOffset)
  | attrInfo :: attributes => do
    let field ← FieldMeta.init attrInfo.name attrInfo.type fieldOffset (.ofNat attrInfo.length) true (.ofNat i)
      attrInfo.nullable
    let rest ← initFields (fieldOffset + .ofNat attrInfo.length) (i + 1) attributes
    .ok (field :: rest.1, rest.2)

/-- `init`; a kit without hidden fields gives no list of them. -/
def init (tableId : Int32) (name : String) (trxFields : Option (List FieldMeta)) (attributes : List AttrInfo)
    (storageFormat : Int32) : Except RC TableMeta :=
  if isBlank name then .error .invalidArgument
  else if attributes.isEmpty then .error .invalidArgument
  else do
    let hidden := initTrxFields 0 (trxFields.getD [])
    let columns ← initFields hidden.2 0 attributes
    .ok ⟨tableId, name, trxFields.getD [], hidden.1 ++ columns.1, [], storageFormat, columns.2⟩

/-- `field(name)`: the first field of the name. -/
def field (table : TableMeta) (name : String) : Option FieldMeta :=
  table.fields.find? fun field => decide (field.name = name)

def sysFieldNum (table : TableMeta) : Nat := table.trxFields.length

end TableMeta

/-! ## Writing -/

def FieldMeta.toJson (f : FieldMeta) : Json String String :=
  ((((((Json.null.set "name" (.string f.name)).set "type" (.string (attrTypeToString f.type))).set
    "offset" (.int f.offset.toInt)).set "len" (.int f.len.toInt)).set "visible" (.bool f.visible)).set
    "FIELD_id" (.int f.fieldId.toInt)).set "nullable" (.bool f.nullable)

def IndexMeta.toJson (index : IndexMeta) : Json String String :=
  (((Json.null.set "name" (.string index.name)).set "unique" (.bool index.unique)).set
    "field_num" (.int index.fields.length)).set
    "field_name" (Json.null.appendAll (index.fields.map .string))

/-- `serialize`, up to the writer. -/
def TableMeta.toJson (table : TableMeta) : Json String String :=
  ((((Json.null.set "table_id" (.int table.tableId.toInt)).set "table_name" (.string table.name)).set
    "storage_format" (.int table.storageFormat.toInt)).set
    "fields" (Json.null.appendAll (table.fields.map FieldMeta.toJson))).set
    "indexes" (Json.null.appendAll (table.indexes.map IndexMeta.toJson))

/-! ## Reading -/

/-- `FieldMeta::from_json`: each member has to be there with its type. -/
def FieldMeta.fromJson (v : Json String String) : Option FieldMeta :=
  if v.isObject = false then none
  else do
    let name ← (v.member "name").asString
    let typeName ← (v.member "type").asString
    let offset ← (v.member "offset").asInt
    let len ← (v.member "len").asInt
    let visible ← (v.member "visible").asBool
    let fieldId ← (v.member "FIELD_id").asInt
    let nullable ← (v.member "nullable").asBool
    let type := attrTypeFromString typeName
    if type = .undefined then none else (FieldMeta.init name type offset len visible fieldId nullable).toOption

/-- `from_json`: the fields are looked up in the table. -/
def IndexMeta.fromJson (table : TableMeta) (v : Json String String) : Option IndexMeta := do
  let name ← (v.member "name").asString
  let unique ← (v.member "unique").asBool
  let fieldNum ← (v.member "field_num").asInt
  let names ← (v.member "field_name").items.mapM Json.asString
  if fieldNum.toInt ≠ names.length then none
  else do
    let fields ← names.mapM table.field
    (IndexMeta.init name fields unique).toOption

/-- The rest of `deserialize`: the indexes. -/
def TableMeta.readIndexes (table : TableMeta) (indexesValue : Json String String) : Option TableMeta :=
  if indexesValue.isEmpty then some table
  else if indexesValue.isArray = false then none
  else do
    let indexes ← indexesValue.items.mapM (IndexMeta.fromJson table)
    some { table with indexes }

/-- `deserialize` of a value that was parsed, into a new table.  Instead of the storage format the code checks
    the table id a second time; a format that is no number makes `asInt` throw. -/
def TableMeta.fromJson (v : Json String String) : Option TableMeta := do
  let tableId ← (v.member "table_id").asInt
  let name ← (v.member "table_name").asString
  let storageFormat ← (v.member "storage_format").asInt
  let fields ← (v.member "fields").items.mapM FieldMeta.fromJson
  let sorted := fields.mergeSort fun f1 f2 => decide (f1.offset ≤ f2.offset)
  let first ← sorted.head?
  let last ← sorted.getLast?
  let table : TableMeta :=
    { tableId
      name
      trxFields := sorted.filter fun f => !f.visible
      fields := sorted
      indexes := []
      storageFormat
      recordSize := last.offset + last.len - first.offset }
  table.readIndexes (v.member "indexes")

section Library

variable {T : Type} (json : Json.Library String String T)

def TableMeta.serialize (table : TableMeta) : T := json.write table.toJson

def TableMeta.deserialize (text : T) : Option TableMeta := (json.parse text).bind TableMeta.fromJson

end Library

/-! ## A field and an index -/

theorem attrTypeFromString_toString (type : AttrType) : attrTypeFromString (attrTypeToString type) = type := by
  cases type <;> decide

/-- What `init` checks of a field. -/
structure FieldMeta.Valid (f : FieldMeta) : Prop where
  name : isBlank f.name = false
  type : f.type ≠ .undefined
  offset : 0 ≤ f.offset
  len : 0 < f.len

/-- `init` takes a field if it is valid, and then as it is. -/
theorem FieldMeta.init_eq_ok {name : String} {type : AttrType} {offset len fieldId : Int32}
    {visible nullable : Bool} {f : FieldMeta} :
    FieldMeta.init name type offset len visible fieldId nullable = .ok f ↔
      f = ⟨name, type, offset, len, visible, fieldId, nullable⟩ ∧ f.Valid := by
  rw [FieldMeta.init]
  constructor
  · intro h
    split_ifs at h with hname hother
    obtain rfl := Except.ok.inj h
    rw [not_or, not_or] at hother
    refine ⟨rfl, Bool.eq_false_iff.mpr hname, hother.1, ?_, ?_⟩
    · exact Int32.not_lt.mp hother.2.1
    · exact Int32.not_le.mp hother.2.2
  · rintro ⟨rfl, hvalid⟩
    have hother : ¬ (type = .undefined ∨ offset < 0 ∨ len ≤ 0) := by
      rw [not_or, not_or]
      exact ⟨hvalid.type, Int32.not_lt.mpr hvalid.offset, Int32.not_le.mpr hvalid.len⟩
    rw [if_neg (Bool.eq_false_iff.mp hvalid.name), if_neg hother]

theorem FieldMeta.fromJson_toJson {f : FieldMeta} (h : f.Valid) : FieldMeta.fromJson f.toJson = some f := by
  have hinit := FieldMeta.init_eq_ok.mpr ⟨rfl, h⟩
  simp [fromJson, toJson, Json.asString, Json.asBool, attrTypeFromString_toString, h.type, hinit, Except.toOption]

/-- What is checked of an index. -/
structure IndexMeta.Valid (table : TableMeta) (index : IndexMeta) : Prop where
  name : isBlank index.name = false
  fields : ∀ name ∈ index.fields, ∃ f, table.field name = some f ∧ isBlank f.name = false

theorem TableMeta.name_of_field {table : TableMeta} {name : String} {f : FieldMeta}
    (h : table.field name = some f) : f.name = name := by
  have hfound := List.find?_some h
  exact of_decide_eq_true hfound

/-- The fields of an index, as the table has them. -/
theorem IndexMeta.Valid.mapM_field {table : TableMeta} {index : IndexMeta} (h : index.Valid table) :
    ∃ fields, index.fields.mapM table.field = some fields ∧ IndexMeta.init index.name fields index.unique = .ok index := by
  have hall : ∀ names : List String, (∀ name ∈ names, ∃ f, table.field name = some f ∧ isBlank f.name = false) →
      ∃ fields, names.mapM table.field = some fields ∧ fields.map FieldMeta.name = names ∧
        ∀ f ∈ fields, isBlank f.name = false := by
    intro names hnames
    induction names with
    | nil => exact ⟨[], rfl, rfl, fun f hf => absurd hf List.not_mem_nil⟩
    | cons name names ih =>
      rw [List.forall_mem_cons] at hnames
      obtain ⟨⟨f, hf, hblank⟩, hrest⟩ := hnames
      obtain ⟨fields, hfields, hmap, hblanks⟩ := ih hrest
      refine ⟨f :: fields, ?_, ?_, List.forall_mem_cons.mpr ⟨hblank, hblanks⟩⟩
      · simp [List.mapM_cons, hf, hfields]
      · rw [List.map_cons, hmap, TableMeta.name_of_field hf]
  obtain ⟨fields, hfields, hmap, hblanks⟩ := hall index.fields h.fields
  refine ⟨fields, hfields, ?_⟩
  have hany : ¬ (fields.any fun field => isBlank field.name) = true := by
    rw [List.any_eq_true]
    rintro ⟨f, hf, hblank⟩
    rw [hblanks f hf] at hblank
    cases hblank
  rw [IndexMeta.init, if_neg (Bool.eq_false_iff.mp h.name), if_neg hany, hmap]

theorem mapM_asString (names : List String) :
    names.mapM (Json.asString ∘ (Json.string : String → Json String String)) = some names := by
  induction names with
  | nil => rfl
  | cons name names ih => simp [List.mapM_cons, ih, Json.asString]

/-- Only the fields of the table count. -/
theorem IndexMeta.Valid.congr {table table' : TableMeta} {index : IndexMeta} (h : index.Valid table)
    (hfields : table'.fields = table.fields) : index.Valid table' := by
  have hfield : table'.field = table.field := by
    funext name
    rw [TableMeta.field, TableMeta.field, hfields]
  exact ⟨h.name, fun name hname => by rw [hfield]; exact h.fields name hname⟩

/-- The number of fields is read as an `int`. -/
theorem IndexMeta.fromJson_toJson {table : TableMeta} {index : IndexMeta} (h : index.Valid table)
    (hlen : index.fields.length < 2 ^ 31) : IndexMeta.fromJson table index.toJson = some index := by
  obtain ⟨fields, hfields, hinit⟩ := h.mapM_field
  have hcount : (Int32.ofInt index.fields.length).toInt = index.fields.length := by
    exact Int32.toInt_ofInt_of_le (by omega) (by omega)
  simp [fromJson, toJson, Json.asString, Json.asBool, Json.asInt, mapM_asString, hcount, hfields, hinit,
    Except.toOption]

/-! ## The fields of a table -/

/-- The fields lie one behind the other, from one offset to another. -/
def Chained (start stop : Int32) : List FieldMeta → Prop
  | [] => start = stop
  | f :: fields => f.offset = start ∧ Chained (start + f.len) stop fields

/-- Two lists of fields, the second of which begins where the first one ends. -/
theorem Chained.append {start mid stop : Int32} : ∀ {fs gs : List FieldMeta}, Chained start mid fs →
    Chained mid stop gs → Chained start stop (fs ++ gs)
  | [], gs, h, hgs => by
    rw [show start = mid from h]
    exact hgs
  | f :: fs, gs, h, hgs => ⟨h.1, h.2.append hgs⟩

/-- Behind a field comes a larger offset: it is not negative, so that nothing overflowed. -/
theorem lt_add_of_valid {f : FieldMeta} (hf : f.Valid) (hnext : 0 ≤ f.offset + f.len) :
    f.offset < f.offset + f.len := by
  have h1 := Int32.le_iff_toInt_le.mp hf.offset
  have h2 := Int32.lt_iff_toInt_lt.mp hf.len
  have h3 := Int32.le_iff_toInt_le.mp hnext
  have h4 := f.offset.toInt_lt
  have h5 := f.len.toInt_lt
  rw [Int32.toInt_zero] at h1 h2 h3
  rw [Int32.lt_iff_toInt_lt]
  rw [Int32.toInt_add, Int.bmod_def] at h3 ⊢
  split at h3
  · rename_i hsmall
    rw [if_pos hsmall]
    omega
  · omega

/-- The offsets grow. -/
theorem Chained.ascending {stop : Int32} : ∀ {fields : List FieldMeta} {start : Int32},
    Chained start stop fields → (∀ f ∈ fields, f.Valid) →
      fields.Pairwise fun f1 f2 => f1.offset < f2.offset
  | [], _, _, _ => List.Pairwise.nil
  | f :: fields, start, h, hvalid => by
    rw [List.forall_mem_cons] at hvalid
    have hrest := h.2.ascending hvalid.2
    refine List.pairwise_cons.mpr ⟨?_, hrest⟩
    cases fields with
    | nil => exact fun g hg => absurd hg List.not_mem_nil
    | cons g gs =>
      have hg : g.offset = f.offset + f.len := by rw [h.2.1, h.1]
      have hlt : f.offset < g.offset := by
        rw [hg]
        refine lt_add_of_valid hvalid.1 ?_
        rw [← hg]
        exact (hvalid.2 g List.mem_cons_self).offset
      intro g' hg'
      rcases List.mem_cons.mp hg' with rfl | hmem
      · exact hlt
      · exact Int32.lt_trans hlt (List.rel_of_pairwise_cons hrest hmem)

theorem Chained.stop_eq {stop : Int32} : ∀ {fields : List FieldMeta} {start : Int32} {last : FieldMeta},
    Chained start stop fields → fields.getLast? = some last → stop = last.offset + last.len
  | [f], start, last, h, hlast => by
    have hf : f = last := Option.some.inj hlast
    rw [← hf, h.1]
    exact h.2.symm
  | f :: g :: fields, start, last, h, hlast => by
    rw [List.getLast?_cons_cons] at hlast
    exact Chained.stop_eq h.2 hlast

/-- A table as it is created, and as it is after indexes have been added. -/
structure Laid (table : TableMeta) : Prop where
  /-- A table has a field. -/
  some : table.fields ≠ []
  valid : ∀ f ∈ table.fields, f.Valid
  /-- The fields follow each other without a gap. -/
  chained : Chained 0 table.recordSize table.fields
  /-- The fields of the transactions are those that are not visible. -/
  hidden : table.trxFields.length = (table.fields.filter fun f => !f.visible).length
  /-- The indexes are over fields of the table. -/
  indexes : ∀ index ∈ table.indexes, index.Valid table

/-- The indexes are read as they were written, if the header array has room for their fields. -/
theorem TableMeta.readIndexes_toJson {table : TableMeta} {indexes : List IndexMeta}
    (hvalid : ∀ index ∈ indexes, index.Valid table) (hlen : ∀ index ∈ indexes, index.fields.length < 2 ^ 31)
    (hnone : table.indexes = []) :
    table.readIndexes (Json.null.appendAll (indexes.map IndexMeta.toJson)) = some { table with indexes } := by
  have hread : indexes.mapM (IndexMeta.fromJson table ∘ IndexMeta.toJson) = some indexes := by
    clear hnone
    induction indexes with
    | nil => rfl
    | cons index indexes ih =>
      rw [List.forall_mem_cons] at hvalid hlen
      simp [List.mapM_cons, IndexMeta.fromJson_toJson hvalid.1 hlen.1, ih hvalid.2 hlen.2]
  rw [readIndexes, Json.isEmpty_appendAll_null]
  cases indexes with
  | nil => rw [List.map_nil, if_pos List.isEmpty_nil, ← hnone]
  | cons index indexes =>
    have hne : (index :: indexes).map IndexMeta.toJson ≠ [] := List.cons_ne_nil _ _
    rw [if_neg (by simp), Json.isArray_appendAll_null hne, if_neg (by decide), Json.items_appendAll_null,
      List.mapM_map, hread]
    rfl

theorem mapM_fromJson_toJson {fields : List FieldMeta} (h : ∀ f ∈ fields, f.Valid) :
    fields.mapM (FieldMeta.fromJson ∘ FieldMeta.toJson) = some fields := by
  induction fields with
  | nil => rfl
  | cons f fields ih =>
    rw [List.forall_mem_cons] at h
    simp [List.mapM_cons, FieldMeta.fromJson_toJson h.1, ih h.2]

/-- **The text of a table.**  What is read is the table, with the hidden fields as they stand in it. -/
theorem TableMeta.fromJson_toJson {table : TableMeta} (h : Laid table)
    (hlen : ∀ index ∈ table.indexes, index.fields.length < 2 ^ 31) :
    TableMeta.fromJson table.toJson
      = some { table with trxFields := table.fields.filter fun f => !f.visible } := by
  have hfields := mapM_fromJson_toJson h.valid
  -- the fields are in order already, and the size of the record is where the last one ends
  have hsorted : (table.fields.mergeSort fun f1 f2 => decide (f1.offset ≤ f2.offset)) = table.fields :=
    List.mergeSort_of_pairwise ((h.chained.ascending h.valid).imp fun hlt =>
      decide_eq_true (Int32.le_of_lt hlt))
  obtain ⟨first, hfirst⟩ := Option.isSome_iff_exists.mp (List.isSome_head?.mpr h.some)
  have hlast := List.getLast?_eq_some_getLast h.some
  have hzero : first.offset = 0 := by
    obtain ⟨rest, hrest⟩ := List.head?_eq_some_iff.mp hfirst
    have hchained := h.chained
    rw [hrest] at hchained
    exact hchained.1
  have hsize : (table.fields.getLast h.some).offset + (table.fields.getLast h.some).len - first.offset
      = table.recordSize := by
    rw [hzero, h.chained.stop_eq hlast, Int32.sub_zero]
  have hindexes : ∀ table' : TableMeta, table'.fields = table.fields → table'.indexes = [] →
      table'.readIndexes (Json.null.appendAll (table.indexes.map IndexMeta.toJson))
        = some { table' with indexes := table.indexes } := fun table' hsame hnone =>
    TableMeta.readIndexes_toJson (fun index hindex => (h.indexes index hindex).congr hsame) hlen hnone
  simp only [fromJson, toJson, Json.member_set, Json.asInt_int, Json.asString, String.reduceEq, if_true, if_false,
    Json.items_appendAll_null, List.mapM_map, hfields, Option.bind_eq_bind, Option.bind_some, hsorted, hfirst, hlast,
    hsize]
  exact hindexes _ rfl rfl

/-! ## The text -/

theorem FieldMeta.normal_toJson (f : FieldMeta) : f.toJson.Normal := by
  have hname := Json.Normal.null.set (.string f.name) "name"
  have htype := hname.set (.string (attrTypeToString f.type)) "type"
  have hlen := (htype.set (.int f.offset.toInt) "offset").set (.int f.len.toInt) "len"
  exact ((hlen.set (.bool f.visible) "visible").set (.int f.fieldId.toInt) "FIELD_id").set (.bool f.nullable) "nullable"

theorem IndexMeta.normal_toJson (index : IndexMeta) : index.toJson.Normal := by
  have hname := Json.Normal.null.set (.string index.name) "name"
  have hnum := (hname.set (.bool index.unique) "unique").set (.int index.fields.length) "field_num"
  refine hnum.set (Json.Normal.appendAll_null fun x hx => ?_) "field_name"
  obtain ⟨name, -, rfl⟩ := List.mem_map.mp hx
  exact .string name

/-- What is written is a value that the parser can give. -/
theorem TableMeta.normal_toJson (table : TableMeta) : table.toJson.Normal := by
  have hnull : (Json.null : Json String String).Normal := .null
  have hid := hnull.set (.int table.tableId.toInt) "table_id"
  have hname := hid.set (.string table.name) "table_name"
  have hformat := hname.set (.int table.storageFormat.toInt) "storage_format"
  have hfields : ∀ x ∈ table.fields.map FieldMeta.toJson, x.Normal := fun x hx => by
    obtain ⟨f, -, rfl⟩ := List.mem_map.mp hx
    exact f.normal_toJson
  have hindexes : ∀ x ∈ table.indexes.map IndexMeta.toJson, x.Normal := fun x hx => by
    obtain ⟨index, -, rfl⟩ := List.mem_map.mp hx
    exact index.normal_toJson
  exact (hformat.set (.appendAll_null hfields) "fields").set (.appendAll_null hindexes) "indexes"

theorem TableMeta.deserialize_serialize {T : Type} (json : Json.Library String String T) {table : TableMeta}
    (h : Laid table) (hlen : ∀ index ∈ table.indexes, index.fields.length < 2 ^ 31) :
    TableMeta.deserialize json (table.serialize json)
      = some { table with trxFields := table.fields.filter fun f => !f.visible } := by
  rw [deserialize, serialize, json.faithful _ table.normal_toJson, Option.bind_some, fromJson_toJson h hlen]

end Miniob.Schema
