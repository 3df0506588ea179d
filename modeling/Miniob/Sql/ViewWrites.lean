/-
  Writing through a view (`check_and_convert_rows` in src/observer/sql/stmt/insert_stmt.cpp, `UpdateStmt::create` in
  src/observer/sql/stmt/update_stmt.cpp, `convert_view_record_to_table_record` and `UpdatePhysicalOperator::open` in
  src/observer/sql/operator/update_physical_operator.cpp, `DeletePhysicalOperator::open` in
  src/observer/sql/operator/delete_physical_operator.cpp).

  1. **INSERT** — the `i`-th value of a row goes to the column of the table that the view's field stands for; the
     other columns are NULL.
  2. **UPDATE** — the values are put into the view's record, and then *each* field of the view is written back, in
     its order.  Of two fields for one column of the table the later one wins (`columnOf_convertViewRecord`), also if
     only the earlier one was named.
  3. **DELETE** — by the identifiers of the rows that were scanned.

  Left out: the name of the table before that of a column, and the way back of a statement that fails.
-/
import Mathlib.Data.List.Nodup
import Miniob.Common.Related
import Miniob.Common.Run
import Miniob.Sql.View

namespace Miniob.Views

open Miniob.Common Miniob.Expr.Cast Miniob.RowStorage
open Miniob.Storage (RecordId)

variable {t : BaseTable}

/-! ## The statements -/

/-- Why a statement does not succeed. -/
inductive Failure where
  /-- A null pointer or an index out of range. -/
  | fault
  | schemaFieldNotExist
  | sqlSyntax
  | code (rc : Storage.RC)

section

variable (u : Unspecified) (kit : TrxKit)

/-- The rows of the table that the transaction sees. -/
abbrev Rows (kit : TrxKit) (t : BaseTable) : Type := List (RecordId × Record (t.tableMeta kit))

/-- Where `Table::insert_record` puts a record, unless it refuses it. -/
abbrev Place (kit : TrxKit) (t : BaseTable) : Type :=
  Rows kit t → Record (t.tableMeta kit) → Except Storage.RC RecordId

/-- `table_` is that of the first field, and there is none for an expression. -/
def View.hasTable (v : View t) : Bool := (v.columns.head v.nonempty).item.isField

/-- `Table::get_record`. -/
def getRecord (rows : Rows kit t) (rid : RecordId) : Except Failure (Record (t.tableMeta kit)) :=
  match rows.find? fun r => r.1 = rid with
  | some r => .ok r.2
  | none => .error (.code .recordNotExist)

/-- Each record is removed. -/
def deleteRecords : List RecordId → Rows kit t → Except Failure (Rows kit t)
  | [], rows => return rows
  | rid :: rids, rows => do
    let _ ← getRecord kit rows rid
    deleteRecords rids (rows.filter fun r => r.1 ≠ rid)

/-- Each record is put somewhere. -/
def insertRecords (place : Place kit t) : List (Record (t.tableMeta kit)) → Rows kit t → Except Failure (Rows kit t)
  | [], rows => return rows
  | record :: records, rows => do
    let rid ← (place rows record).mapError Failure.code
    insertRecords place records (rows ++ [(rid, record)])

/-! ## INSERT -/

/-- The loop over the fields of the view, from the `i`-th value of the row on. -/
def View.convertRow (v : View t) (i : Nat) (tmp : List Value) : List Item → Except Failure (List Value)
  | [] => return tmp
  | x :: xs =>
    match v.columns[i + kit.trxFields.length]? with
    | some ⟨_, .field id⟩ => do
      let f := t.attributes.get id
      if !f.nullable && x.value.isNull then throw (.code .variableNotValid)
      let value ← (convert u x f.type).mapError fun rc => .code (storageRC rc)
      let value ← (resize value f.length).mapError fun rc => .code (storageRC rc)
      v.convertRow (i + 1) (tmp.set id value) xs
    | _ => throw .fault

/-- `check_and_convert_rows` for one row. -/
def View.checkAndConvertRow (v : View t) (row : List Item) : Except Failure (List Value) := do
  if v.columns.length ≠ row.length then throw (.code .variableNotValid)
  let values ← v.convertRow u kit 0 (List.replicate t.attributes.length Item.null.value) row
  (checkRow (t.tableMeta kit).fields values).mapError fun rc => .code (storageRC rc)
  return values

end

/-! ## `make_record` -/

/-- Fields are written over the record. -/
theorem length_setFields {u : Unspecified} {fs : List FieldMeta} {vs : List Value} {data data' : List UInt8}
    (h : setFields u fs vs data = .ok data') (hle : ∀ f ∈ fs, f.offset + f.len ≤ data.length) :
    data'.length = data.length := by
  induction fs generalizing vs data with
  | nil =>
    cases h
    rfl
  | cons f fs ih =>
    cases vs with
    | nil =>
      cases h
      rfl
    | cons v vs =>
      obtain ⟨real, h⟩ : ∃ real, setFields u fs vs (setValueToRecord u data real f) = .ok data' := by
        rw [setFields] at h
        split at h
        · obtain ⟨_, -, h⟩ := ok_of_bind h
          obtain ⟨real, -, h⟩ := ok_of_bind h
          exact ⟨real, h⟩
        · obtain ⟨_, -, h⟩ := ok_of_bind h
          obtain ⟨real, -, h⟩ := ok_of_bind h
          exact ⟨real, h⟩
      have hf := hle f List.mem_cons_self
      have hbytes := length_valueBytes u real f
      have hlen : (setValueToRecord u data real f).length = data.length := length_copyTo (by omega)
      rw [ih h fun g hg => hlen ▸ hle g (List.mem_cons_of_mem _ hg), hlen]

/-- A record has the size that the table says. -/
theorem length_makeRecord {u : Unspecified} {m : TableMeta} {values : List Value} {data : List UInt8}
    (h : makeRecord u m values = .ok data) : data.length = m.recordSize := by
  unfold makeRecord at h
  split at h
  · cases h
  · have hlen : (List.replicate m.recordSize (0 : UInt8)).length = m.recordSize := List.length_replicate
    rw [← hlen]
    apply length_setFields h
    intro f hf
    rw [hlen]
    exact fields_le hf

section

variable (u : Unspecified) (kit : TrxKit)

/-- `Table::make_record`. -/
def BaseTable.makeRecord (t : BaseTable) (values : List Value) : Except Failure (Record (t.tableMeta kit)) :=
  match h : RowStorage.makeRecord u (t.tableMeta kit) values with
  | .ok data => .ok ⟨data, length_makeRecord h⟩
  | .error rc => .error (.code (storageRC rc))

/-- `Trx::insert_record` writes the fields of the transactions. -/
def stamp (trxId : Int32) (record : Record (t.tableMeta kit)) : Record (t.tableMeta kit) :=
  match kit with
  | .vacuous => record
  | .mvcc => ⟨copyTo record.val 0 (int32Bytes (-trxId) ++ int32Bytes 2147483647), by
      have hsize := record.property
      have h8 : (TrxKit.mvcc).sysLen = 8 := rfl
      unfold BaseTable.tableMeta TableMeta.recordSize at hsize ⊢
      rw [length_copyTo, hsize]
      rw [List.length_append, length_int32Bytes, length_int32Bytes]
      dsimp only at hsize
      omega⟩

/-- `InsertPhysicalOperator::open`. -/
def insertValues (trxId : Int32) (place : Place kit t) : List (List Value) → Rows kit t → Except Failure (Rows kit t)
  | [], rows => return rows
  | values :: rest, rows => do
    let record ← t.makeRecord u kit values
    let rows ← insertRecords kit place [stamp kit trxId record] rows
    insertValues trxId place rest rows

/-- An INSERT into the view. -/
def View.insert (v : View t) (trxId : Int32) (place : Place kit t) (items : List (List Item)) (rows : Rows kit t) :
    Except Failure (Rows kit t) :=
  if !v.canWrite then .error (.code .unsupported)
  else if !v.hasTable then .error .fault
  else do
    let values ← items.mapM (v.checkAndConvertRow u kit)
    insertValues u kit trxId place values rows

/-! ## UPDATE -/

/-- A column of the `SET` clause and its new value. -/
structure SetClause where
  name : String
  value : NewValue

/-- The names of the fields of the transactions. -/
def TrxKit.trxNames : TrxKit → List String
  | vacuous => []
  | mvcc => ["__trx_xid_begin", "__trx_xid_end"]

/-- All fields of the view, with those of the transactions as columns. -/
def View.fullMeta (v : View t) : TableMeta := ⟨0, kit.trxFields ++ v.attrInfos⟩

/-- `TableMeta::field`: the first field of the name. -/
def View.fieldIndex (v : View t) (name : String) : Option Nat :=
  (kit.trxNames ++ v.columns.map Column.name).findIdx? (· = name)

/-- The fields of the `SET` clause; `seen` are those of the clauses before. -/
def View.resolve (v : View t) (seen : List Nat) :
    List SetClause → Except Failure (List ({f : FieldMeta // f ∈ (v.fullMeta kit).fields} × NewValue))
  | [] => return []
  | clause :: clauses =>
    match v.fieldIndex kit clause.name with
    | none => throw .schemaFieldNotExist
    | some k =>
      match h : (v.fullMeta kit).fields[k]? with
      | none => throw .schemaFieldNotExist
      | some f => do
        if k ∈ seen then throw .sqlSyntax
        let rest ← v.resolve (k :: seen) clauses
        return (⟨f, List.mem_of_getElem? h⟩, clause.value) :: rest

/-- `Record::set_field`: the bytes of a column are copied from a place in the memory. -/
def setField (record : Record (t.tableMeta kit)) (i : Fin t.attributes.length) (data : List UInt8) :
    Record (t.tableMeta kit) :=
  ⟨copyTo record.val (t.fieldMeta kit i).offset (data.take (t.fieldMeta kit i).len), by
    have hle := fields_le (List.get_mem (t.tableMeta kit).fields (i.cast (length_initFields _ _).symm))
    have hsize := record.property
    have htake := List.length_take_le (t.fieldMeta kit i).len data
    unfold BaseTable.fieldMeta at *
    rw [length_copyTo (by omega), hsize]⟩

/-- The loop of `convert_view_record_to_table_record`; the field of an expression is null. -/
def convertViewRecord (viewData : List UInt8) :
    List (Column t) → List FieldMeta → Record (t.tableMeta kit) → Except Failure (Record (t.tableMeta kit))
  | c :: cs, f :: fs, record =>
    match c.item with
    | .field i => convertViewRecord viewData cs fs (setField kit record i (viewData.drop f.offset))
    | .expr .. => throw .fault
  | _, _, record => return record

theorem recordSize_fullMeta {v : View t} {kit : TrxKit} :
    (v.tableMeta kit).recordSize = (v.fullMeta kit).recordSize := by
  unfold TableMeta.recordSize View.tableMeta View.fullMeta TrxKit.sysLen
  rw [List.map_append, List.sum_append, Nat.zero_add]

/-- The record of a row, with the fields of the transactions as columns. -/
def View.fullRecord (v : View t) (record : Record (v.tableMeta kit)) : Record (v.fullMeta kit) :=
  ⟨record.val, record.property.trans recordSize_fullMeta⟩

/-- The new record of a row. -/
def View.newRecord (v : View t) (values : List (Assignment (v.fullMeta kit))) (rows : Rows kit t)
    (r : RecordId × Record (v.tableMeta kit)) : Except Failure (Record (t.tableMeta kit)) :=
  if !v.hasTable then .error .fault
  else do
    let record ← getRecord kit rows r.1
    convertViewRecord kit (assign values (v.fullRecord kit r.2)).val v.columns (v.fieldMetas kit) record

/-- An UPDATE of the view; without a row it succeeds also if a value cannot be converted. -/
def View.update (v : View t) (memory : RecordId → Record (v.tableMeta kit)) (filter : List Value → Bool)
    (clauses : List SetClause) (place : Place kit t) (rows : Rows kit t) : Except Failure (Rows kit t) :=
  let selected := v.scan u kit memory filter rows
  if !v.canWrite then .error (.code .invalidArgument)
  else do
    let fields ← v.resolve kit [] clauses
    match convertExpressionToValues u fields with
    | .error rc => if selected.isEmpty then return rows else throw (.code rc)
    | .ok values =>
      let records ← selected.mapM (v.newRecord kit values rows)
      let rows ← deleteRecords kit (selected.map Prod.fst) rows
      insertRecords kit place records rows

/-! ## DELETE -/

/-- A DELETE from the view. -/
def View.delete (v : View t) (memory : RecordId → Record (v.tableMeta kit)) (filter : List Value → Bool)
    (rows : Rows kit t) : Except Failure (Rows kit t) :=
  let selected := v.scan u kit memory filter rows
  if !v.canWrite then .error (.code .invalidArgument)
  else if !v.hasTable && !selected.isEmpty then .error .fault
  else deleteRecords kit (selected.map Prod.fst) rows

end

/-! ## What a column has -/

/-- What is read of the bytes of a column alone. -/
def readColumn (a : AttrInfo) (bytes : List UInt8) : Value := setData a.type (bytes ++ List.replicate 4 0) a.length

def BaseTable.content (kit : TrxKit) (t : BaseTable) (i : Fin t.attributes.length)
    (record : Record (t.tableMeta kit)) : Value :=
  readColumn (t.attributes.get i) (columnOf record.val (t.fieldMeta kit i))

/-- What a column of the length keeps of a value. -/
def fit (length : Nat) : Value → Value
  | .chars data => .chars ((data.take length).takeWhile (· ≠ 0))
  | .ints v => .ints (int32OfBytes (((int32Bytes v).take length ++ List.replicate 4 0).take 4))
  | .floats v => .floats (int32OfBytes (((int32Bytes v).take length ++ List.replicate 4 0).take 4))
  | .dates v => .dates (int32OfBytes (((int32Bytes v).take length ++ List.replicate 4 0).take 4))
  | .vectors units => .vectors units

section Content

variable {u : Unspecified} {f : FieldMeta} {a : AttrInfo}

/-- Four bytes are read, and no byte behind the number is among them. -/
theorem take_number {bytes pad behind : List UInt8} {length : Nat} (h : bytes.length = 4) :
    ((bytes ++ pad).take length ++ behind).take 4 = (bytes.take length ++ behind).take 4 := by
  by_cases hle : length ≤ 4
  · have htake : (bytes ++ pad).take length = bytes.take length := List.take_append_of_le_length (by omega)
    rw [htake]
  · -- the field is longer, and its other bytes are not read
    have htake : (bytes ++ pad).take length = bytes ++ pad.take (length - 4) := by
      rw [List.take_append, List.take_of_length_le (by omega), h]
    have hall : bytes.take length = bytes := List.take_of_length_le (by omega)
    rw [htake, hall, List.append_assoc, List.take_left' h, List.take_left' h]

/-- A column of the view reads what the table holds, cut or filled up. -/
theorem readColumn_scanBytes {v : Value} (hlen : f.len = a.length) (hv : v.attrType = a.type)
    (hunits : ∀ units, v = .vectors units → units.length = a.length / 4) :
    readColumn a (scanBytes u v f) = fit a.length v := by
  have hpos : 0 < f.len := hlen ▸ a.length_pos
  unfold readColumn
  rw [← hv, ← hlen]
  cases v with
  | chars data => exact setData_chars hpos data
  | ints v =>
    rw [scanBytes_ints]
    exact congrArg (fun bs => Value.ints (int32OfBytes bs)) (take_number (length_int32Bytes v))
  | floats v =>
    rw [scanBytes_floats]
    exact congrArg (fun bs => Value.floats (int32OfBytes bs)) (take_number (length_int32Bytes v))
  | dates v =>
    rw [scanBytes_dates]
    exact congrArg (fun bs => Value.dates (int32OfBytes bs)) (take_number (length_int32Bytes v))
  | vectors units => exact setData_vectors units (hlen ▸ hunits units rfl)

/-- An array does not depend on what stands behind it. -/
theorem int32sOfBytes_append {n : Nat} {bs : List UInt8} (tail : List UInt8) (h : 4 * n ≤ bs.length) :
    int32sOfBytes n (bs ++ tail) = int32sOfBytes n bs := by
  have hn := length_int32sOfBytes n bs
  calc int32sOfBytes n (bs ++ tail)
    _ = int32sOfBytes (int32sOfBytes n bs).length
          (int32sBytes (int32sOfBytes n bs) ++ (bs.drop (4 * n) ++ tail)) := by
      rw [hn, int32sBytes_int32sOfBytes h, ← List.append_assoc, List.take_append_drop]
    _ = int32sOfBytes n bs := int32sOfBytes_int32sBytes _ _

/-- Of a number the first four bytes count. -/
theorem fit_number {column : List UInt8} (tail : List UInt8) {length : Nat} (hcolumn : column.length = length)
    (htail : 4 ≤ tail.length) :
    ((int32Bytes (int32OfBytes ((column ++ tail).take 4))).take length ++ List.replicate 4 0).take 4
      = (column ++ List.replicate 4 0).take 4 := by
  rw [int32Bytes_int32OfBytes (by rw [List.length_take, List.length_append]; omega), List.take_take]
  by_cases hle : length ≤ 4
  · rw [Nat.min_eq_left hle, List.take_left' hcolumn]
  · have htake : (column ++ tail).take 4 = column.take 4 := List.take_append_of_le_length (by omega)
    have hfour : (column.take 4).length = 4 := by
      rw [List.length_take]
      omega
    rw [Nat.min_eq_right (by omega), htake, List.take_left' hfour, List.take_append_of_le_length (by omega)]

/-- What a column keeps of the cell that was read from it is what it has. -/
theorem fit_setData {column : List UInt8} {tail : List UInt8} (hcolumn : column.length = a.length)
    (htail : 4 ≤ tail.length) : fit a.length (setData a.type (column ++ tail) a.length) = readColumn a column := by
  have hnumber := fit_number tail hcolumn htail
  unfold readColumn
  cases a.type with
  | ints => exact congrArg (fun bs => Value.ints (int32OfBytes bs)) hnumber
  | floats => exact congrArg (fun bs => Value.floats (int32OfBytes bs)) hnumber
  | dates => exact congrArg (fun bs => Value.dates (int32OfBytes bs)) hnumber
  | chars =>
    dsimp only [setData, Index.setString]
    rw [List.take_left' hcolumn, List.take_left' hcolumn]
    have hle := (List.takeWhile_sublist (· ≠ 0) (l := column)).length_le
    dsimp only [fit]
    rw [List.take_of_length_le (by omega), takeWhile_text fun b hb => ne_zero_of_mem_takeWhile hb]
  | vectors =>
    dsimp only [setData, fit]
    rw [int32sOfBytes_append tail (by omega), int32sOfBytes_append _ (by omega)]

end Content

/-! ## What a statement should do -/

section

variable (u : Unspecified) (kit : TrxKit)

/-- The column of a name is the first one. -/
def View.columnNamed (v : View t) (name : String) : Option Nat := v.columns.findIdx? fun c => c.name = name

/-- The column of the name is the `i`-th column of the table. -/
def View.StandsFor (v : View t) (name : String) (i : Fin t.attributes.length) : Prop :=
  ∃ (k : Nat) (c : Column t), v.columnNamed name = some k ∧ v.columns[k]? = some c ∧ c.item = .field i

/-- A column of the table has the converted value of a column that is this column, and NULL if none is. -/
def View.Inserted (v : View t) (row : List Item) (record : Record (t.tableMeta kit)) : Prop :=
  ∃ values made, t.makeRecord u kit values = .ok made ∧
    (∀ i, columnOf record.val (t.fieldMeta kit i) = columnOf made.val (t.fieldMeta kit i)) ∧
    ∀ i : Fin t.attributes.length,
      (∃ (k : Nat) (c : Column t) (x : Item) (converted value : Value), v.columns[k]? = some c ∧ c.item = .field i ∧
        row[k]? = some x ∧
        convert u x (t.attributes.get i).type = .ok converted ∧
        resize converted (t.attributes.get i).length = .ok value ∧ values[i.val]? = some value) ∨
      (∀ c ∈ v.columns, c.item ≠ .field i) ∧ values[i.val]? = some Item.null.value

def View.InsertRight (v : View t) : Prop :=
  ∀ (trxId : Int32) (place : Place kit t) (items : List (List Item)) (rows rows' : Rows kit t),
    v.insert u kit trxId place items rows = .ok rows' →
    ∃ new, rows' = rows ++ new ∧ List.Forall₂ (fun row r => v.Inserted u kit row r.2) items new

/-- A column of the table has a new value of a column that is this column, and what it had if none was named. -/
def View.Updated (v : View t) (clauses : List SetClause) (old new : Record (t.tableMeta kit)) : Prop :=
  ∀ i, (∃ clause ∈ clauses, v.StandsFor clause.name i ∧
      ∃ value, convertExpression u (t.fieldMeta kit i) clause.value = .ok value ∧
        t.content kit i new = fit (t.attributes.get i).length value) ∨
    (∀ clause ∈ clauses, ¬ v.StandsFor clause.name i) ∧ t.content kit i new = t.content kit i old

/-- The rows that a filter on the SELECT list names. -/
def View.named (v : View t) (filter : List Value → Bool) (rows : Rows kit t) : Rows kit t :=
  rows.filter fun r => filter (v.values u kit r.2)

def View.others (v : View t) (filter : List Value → Bool) (rows : Rows kit t) : Rows kit t :=
  rows.filter fun r => !filter (v.values u kit r.2)

def View.UpdateRight (v : View t) : Prop :=
  ∀ (memory : RecordId → Record (v.tableMeta kit)) (filter : List Value → Bool) (clauses : List SetClause)
    (place : Place kit t) (rows rows' : Rows kit t), (rows.map Prod.fst).Nodup →
    v.update u kit memory filter clauses place rows = .ok rows' →
    ∃ new, rows' = v.others u kit filter rows ++ new ∧
      List.Forall₂ (fun old new => v.Updated u kit clauses old.2 new.2) (v.named u kit filter rows) new

def View.DeleteRight (v : View t) : Prop :=
  ∀ (memory : RecordId → Record (v.tableMeta kit)) (filter : List Value → Bool) (rows rows' : Rows kit t),
    (rows.map Prod.fst).Nodup → v.delete u kit memory filter rows = .ok rows' →
    rows' = v.others u kit filter rows

end

/-! ## Columns of the view and of the table -/

section Columns

variable {u : Unspecified} {kit : TrxKit} {v : View t} {i j : Fin t.attributes.length}

/-- No later column is the `i`-th column of the table. -/
def Last (columns : List (Column t)) (i : Fin t.attributes.length) (k : Nat) : Prop :=
  (∃ c : Column t, columns[k]? = some c ∧ c.item = .field i) ∧
    ∀ (k' : Nat) (c : Column t), k < k' → columns[k']? = some c → c.item ≠ .field i

theorem getElem?_fieldMeta (kit : TrxKit) (i : Fin t.attributes.length) :
    (t.tableMeta kit).fields[i.val]? = some (t.fieldMeta kit i) := List.getElem?_eq_getElem _

/-- The field of a column of the table. -/
theorem fieldMeta_eq (kit : TrxKit) (i : Fin t.attributes.length) :
    ∃ offset, t.fieldMeta kit i =
      ⟨(t.attributes.get i).type, offset, (t.attributes.get i).length, (t.attributes.get i).nullable⟩ := by
  have h := getElem?_fieldMeta kit i
  have hlt : i.val < (t.tableMeta kit).attributes.length := i.isLt
  rw [TableMeta.fields, getElem?_initFields, List.getElem?_eq_getElem hlt] at h
  exact ⟨_, (Option.some.inj h).symm⟩

theorem fieldMeta_len (kit : TrxKit) (i : Fin t.attributes.length) :
    (t.fieldMeta kit i).len = (t.attributes.get i).length := by
  obtain ⟨offset, h⟩ := fieldMeta_eq kit i
  rw [h]

theorem fieldMeta_le (i : Fin t.attributes.length) (record : Record (t.tableMeta kit)) :
    (t.fieldMeta kit i).offset + (t.fieldMeta kit i).len ≤ record.val.length := by
  rw [record.property]
  exact fields_le (List.mem_of_getElem? (getElem?_fieldMeta kit i))

/-- Two fields of a table do not overlap. -/
theorem apart_fieldMeta (kit : TrxKit) (h : i ≠ j) : Apart (t.fieldMeta kit i) (t.fieldMeta kit j) := by
  have hpair := List.pairwise_iff_getElem.mp (pairwise_initFields t.attributes kit.sysLen)
  have hlt : ∀ k : Fin t.attributes.length, k.val < (initFields kit.sysLen t.attributes).length := by
    intro k
    rw [length_initFields]
    exact k.isLt
  rcases Nat.lt_or_gt_of_ne (Fin.val_ne_of_ne h) with hij | hij
  · exact hpair _ _ (hlt i) (hlt j) hij
  · exact (hpair _ _ (hlt j) (hlt i) hij).symm

/-- The field of a column of the view. -/
theorem fieldMetas_eq {k : Nat} {f : FieldMeta} (hf : (v.fieldMetas .vacuous)[k]? = some f) : ∃ c offset,
    v.columns[k]? = some c ∧
    f = ⟨c.item.attrInfo.type, offset, c.item.attrInfo.length, c.item.attrInfo.nullable⟩ := by
  unfold View.fieldMetas at hf
  rw [getElem?_initFields] at hf
  obtain ⟨a, ha, rfl⟩ := Option.map_eq_some_iff.mp hf
  have hcolumn : (v.columns.map fun c => c.item.attrInfo)[k]? = some a := ha
  rw [List.getElem?_map] at hcolumn
  obtain ⟨c, hc, rfl⟩ := Option.map_eq_some_iff.mp hcolumn
  exact ⟨c, _, hc, rfl⟩

theorem length_fieldMetas : (v.fieldMetas .vacuous).length = v.columns.length :=
  (length_initFields _ _).trans (List.length_map _)

theorem columnOf_setField (record : Record (t.tableMeta kit)) {data : List UInt8}
    (h : (t.attributes.get i).length ≤ data.length) :
    columnOf (setField kit record i data).val (t.fieldMeta kit i) = data.take (t.attributes.get i).length := by
  have hle := fieldMeta_le i record
  unfold setField
  rw [columnOf_copyTo_self (by omega), fieldMeta_len]
  rw [List.length_take, fieldMeta_len]
  omega

/-- So writing one leaves the other. -/
theorem columnOf_setField_apart (record : Record (t.tableMeta kit)) (data : List UInt8) (h : i ≠ j) :
    columnOf (setField kit record i data).val (t.fieldMeta kit j) = columnOf record.val (t.fieldMeta kit j) := by
  have hle := fieldMeta_le i record
  have htake := List.length_take_le (t.fieldMeta kit i).len data
  have hapart := apart_fieldMeta kit h
  unfold Apart at hapart
  apply columnOf_copyTo_apart
  · omega
  · omega

/-- **Writing back.**  A column of the table gets the bytes of the last field that is this column. -/
theorem columnOf_convertViewRecord {data : List UInt8} {cs : List (Column t)} {fs : List FieldMeta}
    {record record' : Record (t.tableMeta kit)} (h : convertViewRecord kit data cs fs record = .ok record')
    (hlen : cs.length ≤ fs.length)
    (hfs : ∀ (k : Nat) (c : Column t) (f : FieldMeta), cs[k]? = some c → fs[k]? = some f →
      f.len = c.item.attrInfo.length ∧ f.offset + f.len ≤ data.length) (i : Fin t.attributes.length) :
    (∃ (k : Nat) (f : FieldMeta), Last cs i k ∧ fs[k]? = some f ∧
      columnOf record'.val (t.fieldMeta kit i) = columnOf data f) ∨
    (∀ c ∈ cs, c.item ≠ .field i) ∧
      columnOf record'.val (t.fieldMeta kit i) = columnOf record.val (t.fieldMeta kit i) := by
  induction cs generalizing fs record with
  | nil =>
    cases h
    exact Or.inr ⟨List.forall_mem_nil _, rfl⟩
  | cons c cs ih =>
    obtain ⟨f, fs, rfl⟩ := List.exists_cons_of_length_pos (Nat.lt_of_lt_of_le (Nat.succ_pos _) hlen)
    rw [convertViewRecord] at h
    cases hitem : c.item with
    | expr info vectors eval =>
      rw [hitem] at h
      cases h
    | field j =>
      rw [hitem] at h
      have hrest := ih h (Nat.le_of_succ_le_succ hlen) fun k c' f' hc hf => hfs (k + 1) c' f' hc hf
      rcases hrest with ⟨k, g, ⟨hk, hlast⟩, hg, hcolumn⟩ | ⟨hnone, hcolumn⟩
      · refine Or.inl ⟨k + 1, g, ⟨hk, ?_⟩, hg, hcolumn⟩
        intro k' c' hlt hc'
        obtain ⟨k', rfl⟩ := Nat.exists_eq_succ_of_ne_zero (Nat.ne_of_gt (Nat.lt_of_le_of_lt (Nat.zero_le _) hlt))
        exact hlast k' c' (Nat.lt_of_succ_lt_succ hlt) hc'
      · -- no later field is this column, so this one decides if it is
        by_cases heq : j = i
        · subst heq
          obtain ⟨hf, hle⟩ := hfs 0 c f rfl rfl
          rw [hitem] at hf
          have hdrop : (t.attributes.get j).length ≤ (data.drop f.offset).length := by
            rw [List.length_drop, ← show f.len = (t.attributes.get j).length from hf]
            omega
          refine Or.inl ⟨0, f, ⟨⟨c, rfl, hitem⟩, ?_⟩, rfl, ?_⟩
          · intro k' c' hlt hc'
            obtain ⟨k', rfl⟩ := Nat.exists_eq_succ_of_ne_zero (Nat.ne_of_gt hlt)
            exact hnone c' (List.mem_of_getElem? hc')
          · rw [hcolumn, columnOf_setField record hdrop, ← show f.len = (t.attributes.get j).length from hf]
            rfl
        · refine Or.inr ⟨?_, hcolumn.trans (columnOf_setField_apart record _ heq)⟩
          intro c' hc'
          rcases List.mem_cons.mp hc' with rfl | hc'
          · rw [hitem]
            exact fun h => heq (SelectItem.field.inj h)
          · exact hnone c' hc'

end Columns

/-! ## Rows -/

section RowLemmas

variable {kit : TrxKit} {rows rows' : Rows kit t}

/-- A deletion that succeeds takes out these rows and no others. -/
theorem deleteRecords_eq {rids : List RecordId} (h : deleteRecords kit rids rows = .ok rows') :
    rows' = rows.filter fun r => r.1 ∉ rids := by
  induction rids generalizing rows with
  | nil =>
    cases h
    exact (List.filter_eq_self.mpr fun r _ => decide_eq_true (List.not_mem_nil)).symm
  | cons rid rids ih =>
    rw [deleteRecords] at h
    obtain ⟨_, -, h⟩ := ok_of_bind h
    rw [ih h, List.filter_filter]
    apply List.filter_congr
    intro r _
    rw [Bool.eq_iff_iff]
    simp only [Bool.and_eq_true, decide_eq_true_eq, List.mem_cons, not_or]
    exact and_comm

/-- An insertion that succeeds puts the records behind the rows that are there. -/
theorem insertRecords_eq {place : Place kit t} {records : List (Record (t.tableMeta kit))}
    (h : insertRecords kit place records rows = .ok rows') :
    ∃ new, rows' = rows ++ new ∧ new.map Prod.snd = records := by
  induction records generalizing rows with
  | nil =>
    cases h
    exact ⟨[], (List.append_nil _).symm, rfl⟩
  | cons record records ih =>
    rw [insertRecords] at h
    obtain ⟨rid, -, h⟩ := ok_of_bind h
    obtain ⟨new, rfl, rfl⟩ := ih h
    exact ⟨(rid, record) :: new, List.append_assoc _ _ _, rfl⟩

/-- Each identifier has one record. -/
theorem getRecord_of_mem {r : RecordId × Record (t.tableMeta kit)} (hnodup : (rows.map Prod.fst).Nodup)
    (hr : r ∈ rows) : getRecord kit rows r.1 = .ok r.2 := by
  have hfind : rows.find? (fun r' => r'.1 = r.1) = some r := by
    induction rows with
    | nil => cases hr
    | cons r' rows ih =>
      rw [List.map_cons, List.nodup_cons] at hnodup
      rw [List.find?_cons]
      rcases List.mem_cons.mp hr with rfl | hr
      · rw [decide_eq_true rfl]
      · have hne : r'.1 ≠ r.1 := fun heq => hnodup.1 (heq ▸ List.mem_map_of_mem hr)
        rw [decide_eq_false hne]
        exact ih hnodup.2 hr
  unfold getRecord
  rw [hfind]

/-- The rows that are not removed. -/
theorem filter_not_mem (p : RecordId × Record (t.tableMeta kit) → Bool) (hnodup : (rows.map Prod.fst).Nodup) :
    (rows.filter fun r => r.1 ∉ (rows.filter p).map Prod.fst) = rows.filter fun r => !p r := by
  apply List.filter_congr
  intro r hr
  have hmem : r.1 ∈ (rows.filter p).map Prod.fst ↔ p r = true := by
    constructor
    · intro h
      obtain ⟨r', hr', heq⟩ := List.mem_map.mp h
      obtain ⟨hrows, hp⟩ := List.mem_filter.mp hr'
      rwa [List.inj_on_of_nodup_map hnodup hrows hr heq] at hp
    · intro h
      exact List.mem_map_of_mem (List.mem_filter.mpr ⟨hr, h⟩)
  cases hp : p r with
  | true => exact decide_eq_false (not_not.mpr (hmem.mpr hp))
  | false =>
    rw [hp] at hmem
    exact decide_eq_true fun h => Bool.false_ne_true (hmem.mp h)

variable {u : Unspecified} {v : View t}

/-- The rows that a scan gives, if it gives the cells of the SELECT list. -/
theorem scan_eq (hscans : v.Scans u kit) (memory : RecordId → Record (v.tableMeta kit))
    (filter : List Value → Bool) : v.scan u kit memory filter rows =
      (v.named u kit filter rows).map fun r => (r.1, v.record u kit r.2 (memory r.1)) := by
  unfold View.scan View.named
  rw [List.filter_map]
  congr 1
  apply List.filter_congr
  intro r _
  exact congrArg filter (scans_iff.mp hscans r.2 (memory r.1))

theorem map_fst_scan (hscans : v.Scans u kit) (memory : RecordId → Record (v.tableMeta kit))
    (filter : List Value → Bool) :
    (v.scan u kit memory filter rows).map Prod.fst = (v.named u kit filter rows).map Prod.fst := by
  rw [scan_eq hscans, List.map_map]
  rfl

/-- **DELETE.** -/
theorem deleteRight (hscans : v.Scans u kit) : v.DeleteRight u kit := by
  intro memory filter rows rows' hnodup h
  unfold View.delete at h
  dsimp only at h
  split at h
  · cases h
  split at h
  · cases h
  · rw [deleteRecords_eq h, map_fst_scan hscans]
    exact filter_not_mem _ hnodup

end RowLemmas

/-! ## INSERT -/

section InsertLemmas

variable {u : Unspecified} {v : View t}

/-- The values of a row: `k` counts from the `n`-th on. -/
theorem convertRow_ok {n : Nat} {tmp values : List Value} {row : List Item}
    (h : v.convertRow u .vacuous n tmp row = .ok values) (htmp : tmp.length = t.attributes.length)
    (i : Fin t.attributes.length) :
    (∃ (k : Nat) (c : Column t) (x : Item) (converted value : Value),
      v.columns[n + k]? = some c ∧ c.item = .field i ∧ row[k]? = some x ∧ convert u x (t.attributes.get i).type = .ok converted ∧
      resize converted (t.attributes.get i).length = .ok value ∧ values[i.val]? = some value) ∨
    (∀ (k : Nat) (c : Column t), k < row.length → v.columns[n + k]? = some c → c.item ≠ .field i) ∧
      values[i.val]? = tmp[i.val]? := by
  induction row generalizing n tmp with
  | nil =>
    cases h
    exact Or.inr ⟨fun k c hk => absurd hk (Nat.not_lt_zero k), rfl⟩
  | cons x row ih =>
    rw [View.convertRow] at h
    split at h
    · rename_i name id hcolumn
      have hcolumn : v.columns[n + 0]? = some ⟨name, .field id⟩ := hcolumn
      dsimp only at h
      split at h
      · cases h
      obtain ⟨converted, hconverted, h⟩ := ok_of_bind h
      obtain ⟨value, hvalue, h⟩ := ok_of_bind h
      have hrest := ih h (by rw [List.length_set, htmp])
      rcases hrest with ⟨k, c, x', converted', value', hc, hitem, hx', hrest⟩ | ⟨hnone, hkept⟩
      · rw [Nat.add_assoc, Nat.add_comm 1] at hc
        exact Or.inl ⟨k + 1, c, x', converted', value', hc, hitem, hx', hrest⟩
      · -- no later value goes to this column, so this one stays if it does
        by_cases heq : id = i
        · subst heq
          rw [List.getElem?_set_self (by rw [htmp]; exact id.isLt)] at hkept
          exact Or.inl ⟨0, ⟨name, .field id⟩, x, converted, value, hcolumn, rfl, rfl, ok_of_mapError hconverted,
            ok_of_mapError hvalue, hkept⟩
        · rw [List.getElem?_set_ne (Fin.val_ne_of_ne heq)] at hkept
          refine Or.inr ⟨fun k c hk hc => ?_, hkept⟩
          cases k with
          | zero =>
            obtain rfl := Option.some.inj (hcolumn.symm.trans hc)
            exact fun h => heq (SelectItem.field.inj h)
          | succ k =>
            refine hnone k c (Nat.lt_of_succ_lt_succ hk) ?_
            rwa [Nat.add_assoc, Nat.add_comm 1]
    · cases h

/-- One record for each list of values. -/
theorem insertValues_ok {trxId : Int32} {place : Place .vacuous t} {values : List (List Value)}
    {rows rows' : Rows .vacuous t} (h : insertValues u .vacuous trxId place values rows = .ok rows') :
    ∃ new, rows' = rows ++ new ∧
      List.Forall₂ (fun vs r => t.makeRecord u .vacuous vs = .ok r.2) values new := by
  induction values generalizing rows with
  | nil =>
    cases h
    exact ⟨[], (List.append_nil _).symm, .nil⟩
  | cons vs values ih =>
    rw [insertValues] at h
    obtain ⟨record, hrecord, h⟩ := ok_of_bind h
    obtain ⟨rows₁, hrows₁, h⟩ := ok_of_bind h
    obtain ⟨one, rfl, hone⟩ := insertRecords_eq hrows₁
    obtain ⟨r, rfl, hr⟩ := List.map_eq_singleton_iff.mp hone
    obtain ⟨new, rfl, hnew⟩ := ih h
    refine ⟨r :: new, List.append_assoc _ _ _, .cons ?_ hnew⟩
    rw [hr]
    exact hrecord

/-- **INSERT.** -/
theorem insertRight : v.InsertRight u .vacuous := by
  intro trxId place items rows rows' h
  unfold View.insert at h
  split at h
  · cases h
  split at h
  · cases h
  obtain ⟨values, hvalues, h⟩ := ok_of_bind h
  obtain ⟨new, rfl, hnew⟩ := insertValues_ok h
  refine ⟨new, rfl, forall₂_comp (forall₂_of_mapM hvalues) hnew ?_⟩
  intro row vs r hrow hmade
  unfold View.checkAndConvertRow at hrow
  split at hrow
  · cases hrow
  rename_i hlen
  obtain ⟨vs', hvs, hrow⟩ := ok_of_bind hrow
  obtain ⟨_, -, hrow⟩ := ok_of_bind hrow
  cases hrow
  refine ⟨vs, r.2, hmade, fun _ => rfl, fun i => ?_⟩
  have htmp : (List.replicate t.attributes.length Item.null.value).length = t.attributes.length :=
    List.length_replicate
  rcases convertRow_ok hvs htmp i with ⟨k, c, x, converted, value, hc, hrest⟩ | ⟨hnone, hkept⟩
  · rw [Nat.zero_add] at hc
    exact Or.inl ⟨k, c, x, converted, value, hc, hrest⟩
  · -- no field of the view stands for the column, which keeps the NULL it started with
    refine Or.inr ⟨fun c hc => ?_, ?_⟩
    · obtain ⟨k, hk, hck⟩ := List.getElem_of_mem hc
      refine hnone k c ?_ ?_
      · rw [← not_not.mp hlen]
        exact hk
      · rw [Nat.zero_add, List.getElem?_eq_getElem hk, hck]
    · rw [hkept, List.getElem?_replicate, if_pos i.isLt]

end InsertLemmas

end Miniob.Views
