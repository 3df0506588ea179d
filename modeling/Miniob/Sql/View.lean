/-
  Views over a projection of one table (`CreateViewStmt::create` in src/observer/sql/stmt/create_view_stmt.cpp,
  `View::create` in src/observer/storage/table/view.cpp and `ViewScanPhysicalOperator::next` in
  src/observer/sql/operator/view_scan_physical_operator.cpp).

  1. **Creation** — a column of the view takes the type and the length of its expression, and the fields of the
     transactions stand in front, as in a table.  `can_write` is set by each column anew.
  2. **Scanning** — the cells of a row are copied one by one into a record of the view.  The scan counts the fields of
     the record from the first one, so with fields of the transactions each cell comes two fields too early, and the
     last field is not written (`not_scans_mvcc`).
  3. Without such fields a cell is read as it was if it has its place in its field (`setData_scanBytes_iff`,
     `tuple_eq_iff`).
-/
import Miniob.Record.Assignment

namespace Miniob.Views

open Miniob.Common Miniob.Expr.Cast Miniob.RowStorage
open Miniob.Index (setString)
open Miniob.Storage (RecordId)

/-! ## Tables and views -/

inductive TrxKit where
  | vacuous
  | mvcc

/-- `trx_fields`. -/
def TrxKit.trxFields : TrxKit → List AttrInfo
  | vacuous => []
  | mvcc => [⟨.ints, 4, false, by decide⟩, ⟨.ints, 4, false, by decide⟩]

/-- The length of the fields of the transactions. -/
def TrxKit.sysLen (kit : TrxKit) : Nat := (kit.trxFields.map AttrInfo.length).sum

/-- A vector has a number of floats. -/
def WholeVector (a : AttrInfo) : Prop := a.type = .vectors → a.length % 4 = 0

structure BaseTable where
  attributes : List AttrInfo
  vectors : ∀ a ∈ attributes, WholeVector a

/-- An expression of the SELECT list: a plain field, or any other with its type and length. -/
inductive SelectItem (t : BaseTable) where
  | field (i : Fin t.attributes.length)
  | expr (info : AttrInfo) (vectors : WholeVector info) (eval : List Value → Value)

structure Column (t : BaseTable) where
  name : String
  item : SelectItem t

structure View (t : BaseTable) where
  columns : List (Column t)
  nonempty : columns ≠ []

variable {t : BaseTable}

/-- The type, the length and whether the column can be NULL. -/
def SelectItem.attrInfo : SelectItem t → AttrInfo
  | field i => t.attributes.get i
  | expr info _ _ => info

def SelectItem.isField : SelectItem t → Bool
  | field _ => true
  | expr .. => false

def View.attrInfos (v : View t) : List AttrInfo := v.columns.map fun c => c.item.attrInfo

/-- `can_write`: each expression sets it. -/
def View.canWrite (v : View t) : Bool := v.columns.foldl (fun _ c => c.item.isField) false

def BaseTable.tableMeta (kit : TrxKit) (t : BaseTable) : TableMeta := ⟨kit.sysLen, t.attributes⟩

def View.tableMeta (kit : TrxKit) (v : View t) : TableMeta := ⟨kit.sysLen, v.attrInfos⟩

/-- All fields of the view's record, those of the transactions first. -/
def View.fieldMetas (kit : TrxKit) (v : View t) : List FieldMeta := initFields 0 (kit.trxFields ++ v.attrInfos)

/-- The field of a column of the table. -/
def BaseTable.fieldMeta (kit : TrxKit) (t : BaseTable) (i : Fin t.attributes.length) : FieldMeta :=
  (t.tableMeta kit).fields.get (i.cast (length_initFields _ _).symm)

/-! ## Scanning -/

section

variable (u : Unspecified) (kit : TrxKit)

/-- What stands behind the view's record in the memory. -/
def behind (u : Unspecified) : List UInt8 := (List.range 4).map u.behindRecord

/-- What stands behind a record of the table, which is in another place. -/
def behindRow (u : Unspecified) : List UInt8 := (List.range 4).map fun k => u.behindRecord (4 + k)

/-- The value of an expression of the SELECT list for a row of the table. -/
def SelectItem.value (r : Record (t.tableMeta kit)) : SelectItem t → Value
  | field i => cellAt (r.val ++ behindRow u) (t.fieldMeta kit i)
  | expr _ _ eval => eval ((t.tableMeta kit).fields.map (cellAt (r.val ++ behindRow u)))

def View.values (v : View t) (r : Record (t.tableMeta kit)) : List Value :=
  v.columns.map fun c => c.item.value u kit r

/-- The bytes that `set_field` copies after `resize`, whose return code is not looked at. -/
def scanBytes (v : Value) (f : FieldMeta) : List UInt8 :=
  match resize v f.len with
  | .ok v' => dataBytes u v' f
  | .error _ => dataBytes u v f

/-- The loop over the cells; the record has its old bytes where nothing is copied. -/
def fillRecord : List FieldMeta → List Value → List UInt8 → List UInt8
  | f :: fs, v :: vs, data => fillRecord fs vs (copyTo data f.offset (scanBytes u v f))
  | _, _, data => data

theorem length_scanBytes (v : Value) (f : FieldMeta) : (scanBytes u v f).length = f.len := by
  unfold scanBytes
  split <;> exact length_dataBytes u _ f

/-- Values are written over the record, so that it does not grow. -/
theorem length_fillRecord {fs : List FieldMeta} {vs : List Value} {data : List UInt8}
    (h : ∀ f ∈ fs, f.offset + f.len ≤ data.length) : (fillRecord u fs vs data).length = data.length := by
  induction fs generalizing vs data with
  | nil => rfl
  | cons f fs ih =>
    cases vs with
    | nil => rfl
    | cons v vs =>
      have hf := h f List.mem_cons_self
      have hlen : (copyTo data f.offset (scanBytes u v f)).length = data.length :=
        length_copyTo (by rwa [length_scanBytes])
      rw [fillRecord, ih fun g hg => hlen ▸ h g (List.mem_cons_of_mem _ hg), hlen]

theorem le_of_mem_fieldMetas {v : View t} {f : FieldMeta} (h : f ∈ v.fieldMetas kit) :
    f.offset + f.len ≤ (v.tableMeta kit).recordSize := by
  have hle := (initFields_mem h).2.2
  rw [List.map_append, List.sum_append, Nat.zero_add] at hle
  exact hle

/-- The record of the view for a row, in a record that had other bytes before. -/
def View.record (v : View t) (r : Record (t.tableMeta kit)) (memory : Record (v.tableMeta kit)) :
    Record (v.tableMeta kit) :=
  ⟨fillRecord u (v.fieldMetas kit) (v.values u kit r) memory.val, by
    have hsize := memory.property
    rw [length_fillRecord u fun f hf => hsize.symm ▸ le_of_mem_fieldMetas kit hf, hsize]⟩

/-- The cells of the tuple without those of the transactions. -/
def View.tuple (v : View t) (record : Record (v.tableMeta kit)) : List Value :=
  (v.tableMeta kit).fields.map (cellAt (record.val ++ behind u))

/-- The rows of a scan; `memory` is what stands in the record before. -/
def View.scan (v : View t) (memory : RecordId → Record (v.tableMeta kit)) (filter : List Value → Bool)
    (rows : List (RecordId × Record (t.tableMeta kit))) : List (RecordId × Record (v.tableMeta kit)) :=
  (rows.map fun r => (r.1, v.record u kit r.2 (memory r.1))).filter fun r => filter (v.tuple u kit r.2)

/-- Scanning gives the cells of the SELECT list, row by row. -/
def View.Scans (v : View t) : Prop :=
  ∀ (memory : RecordId → Record (v.tableMeta kit)) (rows : List (RecordId × Record (t.tableMeta kit))),
    (v.scan u kit memory (fun _ => true) rows).map (fun r => v.tuple u kit r.2) =
      rows.map fun r => v.values u kit r.2

end

/-! ## Reading a cell that was copied -/

section Cell

variable {u : Unspecified} {v : Value} {f : FieldMeta} {rest : List UInt8}

/-- The value has its place in the field: it has the type of the field, a text is not longer, a vector has as many
    floats, and a number, if the field is shorter, has the bytes behind the field as its upper bytes. -/
def Kept (v : Value) (f : FieldMeta) (rest : List UInt8) : Prop :=
  v.attrType = f.type ∧
    match v with
    | .chars data => data.length ≤ f.len ∧ ∀ b ∈ data, b ≠ 0
    | .dates v | .ints v | .floats v => rest.take (4 - f.len) = (int32Bytes v).drop f.len
    | .vectors units => units.length = f.len / 4

theorem attrType_setData (type : AttrType) (data : List UInt8) (length : Nat) :
    (setData type data length).attrType = type := by
  cases type <;> rfl

theorem takeWhile_zeros (n : Nat) : (List.replicate n (0 : UInt8)).takeWhile (· ≠ 0) = [] := by
  cases n <;> rfl

theorem ne_zero_of_mem_takeWhile {data : List UInt8} {b : UInt8} (h : b ∈ data.takeWhile (· ≠ 0)) : b ≠ 0 := by
  have hb : decide (b ≠ 0) = true := @List.mem_takeWhile_imp _ (fun b => decide (b ≠ 0)) data b h
  exact of_decide_eq_true hb

/-- A text up to its first zero. -/
theorem takeWhile_scanBytes (hpos : 0 < f.len) (data : List UInt8) :
    (scanBytes u (.chars data) f).takeWhile (· ≠ 0) = (data.take f.len).takeWhile (· ≠ 0) := by
  have hnull : (Value.chars data).isNull = true → (data.take f.len).takeWhile (· ≠ 0) = [] := by
    intro h
    cases data with
    | nil => rw [List.take_nil]; rfl
    | cons b data =>
      obtain rfl : b = 0 := of_decide_eq_true h
      obtain ⟨n, hn⟩ := Nat.exists_eq_succ_of_ne_zero (Nat.ne_of_gt hpos)
      rw [hn, List.take_succ_cons]
      rfl
  unfold scanBytes resize
  dsimp only
  by_cases hlong : data.length ≥ f.len
  · -- `resize` leaves it, and its first `f.len` bytes are copied
    rw [if_pos hlong]
    dsimp only [dataBytes]
    split
    · rename_i h
      rw [takeWhile_zeros, hnull h]
    · rw [List.take_append_of_le_length hlong]
  · rw [if_neg hlong]
    by_cases h : (Value.chars data).isNull = true
    · -- NULL becomes zeros
      rw [if_pos h, hnull h]
      exact takeWhile_zeros f.len
    · -- a shorter text is filled with zeros
      rw [if_neg h]
      have hle := (List.takeWhile_sublist (· ≠ 0) (l := data)).length_le
      have hhead : (Value.chars (data.takeWhile (· ≠ 0)
          ++ List.replicate (f.len - (data.takeWhile (· ≠ 0)).length) 0)).isNull = false := by
        cases data with
        | nil => exact absurd rfl h
        | cons b data =>
          have hb : b ≠ 0 := fun hb => h (decide_eq_true hb)
          rw [List.takeWhile_cons, if_pos (decide_eq_true hb)]
          exact decide_eq_false hb
      have hlen : (data.takeWhile (· ≠ 0) ++ List.replicate (f.len - (data.takeWhile (· ≠ 0)).length) 0).length
          = f.len := by
        rw [List.length_append, List.length_replicate]
        omega
      dsimp only [dataBytes]
      rw [hhead, if_neg Bool.false_ne_true, List.take_append_of_le_length (Nat.le_of_eq hlen.symm),
        List.take_of_length_le (Nat.le_of_eq hlen), List.take_of_length_le (Nat.le_of_not_le hlong),
        List.takeWhile_append_of_pos fun b hb => decide_eq_true (ne_zero_of_mem_takeWhile hb), takeWhile_zeros,
        List.append_nil]

theorem setData_chars (hpos : 0 < f.len) (data : List UInt8) :
    setData .chars (scanBytes u (.chars data) f ++ rest) f.len = .chars ((data.take f.len).takeWhile (· ≠ 0)) := by
  rw [setData, setString, List.take_left' (length_scanBytes u _ f), takeWhile_scanBytes hpos]

/-- The bytes of a number. -/
theorem scanBytes_ints (v : Int32) :
    scanBytes u (.ints v) f = (int32Bytes v ++ (List.range f.len).map (u.behindValue f.offset)).take f.len := rfl

theorem scanBytes_floats (v : Int32) :
    scanBytes u (.floats v) f = (int32Bytes v ++ (List.range f.len).map (u.behindValue f.offset)).take f.len := rfl

theorem scanBytes_dates (v : Int32) :
    scanBytes u (.dates v) f = (int32Bytes v ++ (List.range f.len).map (u.behindValue f.offset)).take f.len := rfl

/-- A vector is written with what lies behind it in memory, if it is too short. -/
theorem scanBytes_vectors (units : List Int32) :
    scanBytes u (.vectors units) f
      = (int32sBytes units ++ (List.range f.len).map (u.behindValue f.offset)).take f.len := by
  unfold scanBytes resize
  by_cases h : 4 * units.length = f.len
  · simp only [if_pos h]
    rfl
  · simp only [if_neg h]
    rfl

/-- What is read of a vector does not depend on the bytes behind it. -/
theorem setData_vectors (units : List Int32) (h : units.length = f.len / 4) :
    setData .vectors (scanBytes u (.vectors units) f ++ rest) f.len = .vectors units := by
  have hlen := length_int32sBytes units
  have hle : (int32sBytes units).length ≤ f.len := by omega
  rw [scanBytes_vectors, List.take_append, List.take_of_length_le hle, List.append_assoc, setData, ← h,
    int32sOfBytes_int32sBytes]

/-- A cell is read as it was exactly if it has its place. -/
theorem setData_scanBytes_iff (hpos : 0 < f.len) (hrest : 4 ≤ rest.length) :
    setData f.type (scanBytes u v f ++ rest) f.len = v ↔ Kept v f rest := by
  by_cases htype : v.attrType = f.type
  · have hpad : ((List.range f.len).map (u.behindValue f.offset)).length = f.len := by
      rw [List.length_map, List.length_range]
    unfold Kept
    rw [and_iff_right htype, ← htype]
    cases v with
    | ints v | floats v | dates v =>
      obtain ⟨-, heq⟩ := read_number (v := v) hpos hpad hrest
      dsimp only [Value.attrType]
      rw [← heq]
      simp only [setData, scanBytes_ints, scanBytes_floats, scanBytes_dates, Value.ints.injEq,
        Value.floats.injEq, Value.dates.injEq]
    | chars data =>
      dsimp only [Value.attrType]
      rw [setData_chars hpos, Value.chars.injEq]
      constructor
      · intro h
        have hlen := congrArg List.length h
        have hle := (List.takeWhile_sublist (· ≠ 0) (l := data.take f.len)).length_le
        rw [List.length_take] at hle
        refine ⟨by omega, fun b hb => ?_⟩
        rw [← h] at hb
        exact ne_zero_of_mem_takeWhile hb
      · rintro ⟨hle, hne⟩
        rw [List.take_of_length_le hle, takeWhile_text hne]
    | vectors units =>
      dsimp only [Value.attrType]
      constructor
      · intro h
        have hlen := congrArg List.length (Value.vectors.inj h)
        rwa [length_int32sOfBytes, eq_comm] at hlen
      · exact setData_vectors units
  · -- what is read has the type of the field, and the value has another one
    refine iff_of_false (fun h => htype ?_) fun h => htype h.1
    rw [← h, attrType_setData]

end Cell

/-! ## Without fields of the transactions -/

section Vacuous

variable {u : Unspecified}

/-- The cells one behind the other. -/
def cellBytes (u : Unspecified) : List FieldMeta → List Value → List UInt8
  | f :: fs, v :: vs => scanBytes u v f ++ cellBytes u fs vs
  | _, _ => []

/-- What stands behind a cell. -/
def bytesBehind (u : Unspecified) (fs : List FieldMeta) (vs : List Value) (k : Nat) : List UInt8 :=
  cellBytes u (fs.drop (k + 1)) (vs.drop (k + 1)) ++ behind u

/-- With offsets as `init` computes them, one value comes behind the other. -/
theorem fillRecord_eq (as : List AttrInfo) (vs : List Value) (pre memory : List UInt8)
    (hlen : vs.length = as.length) (hmemory : memory.length = (as.map AttrInfo.length).sum) :
    fillRecord u (initFields pre.length as) vs (pre ++ memory)
      = pre ++ cellBytes u (initFields pre.length as) vs := by
  induction as generalizing vs pre memory with
  | nil =>
    rw [List.eq_nil_of_length_eq_zero hmemory]
    rfl
  | cons a as ih =>
    obtain ⟨v, vs, rfl⟩ := List.exists_cons_of_length_pos (hlen ▸ Nat.succ_pos _ : 0 < vs.length)
    rw [List.map_cons, List.sum_cons] at hmemory
    have hbytes := length_scanBytes u v ⟨a.type, pre.length, a.length, a.nullable⟩
    have hnext : (pre ++ scanBytes u v ⟨a.type, pre.length, a.length, a.nullable⟩).length
        = pre.length + a.length := by
      rw [List.length_append, hbytes]
    have hcopy : copyTo (pre ++ memory) pre.length (scanBytes u v ⟨a.type, pre.length, a.length, a.nullable⟩)
        = pre ++ scanBytes u v ⟨a.type, pre.length, a.length, a.nullable⟩ ++ memory.drop a.length := by
      unfold copyTo
      rw [List.take_left, ← List.drop_drop, List.drop_left, hbytes]
    have hih := ih vs (pre ++ scanBytes u v ⟨a.type, pre.length, a.length, a.nullable⟩) (memory.drop a.length)
      (Nat.succ.inj hlen) (by rw [List.length_drop]; omega)
    rw [hnext, List.append_assoc] at hih
    -- the cell fills its field, so the rest of the loop starts behind it
    rw [initFields, fillRecord, hcopy, cellBytes, List.append_assoc, hih, List.append_assoc]

/-- What is read in column `k` is what was written there. -/
theorem cellAt_cellBytes (as : List AttrInfo) (vs : List Value) (pre tail : List UInt8)
    (hlen : vs.length = as.length) {k : Nat} {f : FieldMeta} {v : Value}
    (hf : (initFields pre.length as)[k]? = some f) (hv : vs[k]? = some v) :
    cellAt (pre ++ cellBytes u (initFields pre.length as) vs ++ tail) f
      = setData f.type (scanBytes u v f ++ (cellBytes u ((initFields pre.length as).drop (k + 1)) (vs.drop (k + 1))
          ++ tail)) f.len := by
  induction as generalizing vs pre k with
  | nil => cases hf
  | cons a as ih =>
    obtain ⟨w, vs, rfl⟩ := List.exists_cons_of_length_pos (hlen ▸ Nat.succ_pos _ : 0 < vs.length)
    rw [initFields] at hf ⊢
    cases k with
    | zero =>
      rw [List.getElem?_cons_zero, Option.some_inj] at hf hv
      subst hf hv
      rw [cellBytes, List.drop_succ_cons, List.drop_zero, List.drop_succ_cons, List.drop_zero]
      unfold cellAt
      rw [List.append_assoc, List.drop_left, List.append_assoc]
    | succ k =>
      rw [List.getElem?_cons_succ] at hf hv
      have hnext : (pre ++ scanBytes u w ⟨a.type, pre.length, a.length, a.nullable⟩).length
          = pre.length + a.length := by
        rw [List.length_append, length_scanBytes]
      have hih := ih vs (pre ++ scanBytes u w ⟨a.type, pre.length, a.length, a.nullable⟩) (Nat.succ.inj hlen)
        (by rwa [hnext]) hv
      rw [hnext] at hih
      rw [cellBytes, List.drop_succ_cons, List.drop_succ_cons, ← List.append_assoc, hih]

variable {v : View t}

theorem length_values (kit : TrxKit) (r : Record (t.tableMeta kit)) :
    (v.values u kit r).length = v.attrInfos.length := by
  unfold View.values View.attrInfos
  rw [List.length_map, List.length_map]

theorem length_fields (kit : TrxKit) : (v.tableMeta kit).fields.length = v.attrInfos.length :=
  length_initFields _ _

/-- The record has the cells one behind the other. -/
theorem record_vacuous (r : Record (t.tableMeta .vacuous)) (memory : Record (v.tableMeta .vacuous)) :
    (v.record u .vacuous r memory).val = cellBytes u (v.tableMeta .vacuous).fields (v.values u .vacuous r) := by
  have hmemory : memory.val.length = (v.attrInfos.map AttrInfo.length).sum :=
    memory.property.trans (Nat.zero_add _)
  have h := fillRecord_eq (u := u) v.attrInfos (v.values u .vacuous r) [] memory.val (length_values _ r) hmemory
  rwa [List.nil_append, List.nil_append] at h

/-- Each value of the SELECT list has its place in the view's record. -/
def View.AllKept (u : Unspecified) (v : View t) : Prop :=
  ∀ (r : Record (t.tableMeta .vacuous)) (k : Nat) (value : Value) (f : FieldMeta),
    (v.values u .vacuous r)[k]? = some value → (v.tableMeta .vacuous).fields[k]? = some f →
    Kept value f (bytesBehind u (v.tableMeta .vacuous).fields (v.values u .vacuous r) k)

/-- A row of the view is read right if each column gives its value back. -/
theorem tuple_eq_iff (r : Record (t.tableMeta .vacuous)) (memory : Record (v.tableMeta .vacuous)) :
    v.tuple u .vacuous (v.record u .vacuous r memory) = v.values u .vacuous r ↔
    ∀ (k : Nat) (value : Value) (f : FieldMeta),
      (v.values u .vacuous r)[k]? = some value → (v.tableMeta .vacuous).fields[k]? = some f →
      Kept value f (bytesBehind u (v.tableMeta .vacuous).fields (v.values u .vacuous r) k) := by
  -- one cell is read with the bytes of the cells behind it, and with those behind the record
  have hcell : ∀ (k : Nat) (value : Value) (f : FieldMeta), (v.values u .vacuous r)[k]? = some value →
      (v.tableMeta .vacuous).fields[k]? = some f →
      (cellAt ((v.record u .vacuous r memory).val ++ behind u) f = value ↔
        Kept value f (bytesBehind u (v.tableMeta .vacuous).fields (v.values u .vacuous r) k)) := by
    intro k value f hvalue hf
    have hpos := (initFields_mem (List.mem_of_getElem? hf)).2.1
    have h := cellAt_cellBytes (u := u) v.attrInfos (v.values u .vacuous r) [] (behind u) (length_values _ r) hf
      hvalue
    rw [record_vacuous]
    rw [List.nil_append] at h
    refine (Eq.congr_left h).trans (setData_scanBytes_iff hpos ?_)
    rw [List.length_append, behind, List.length_map, List.length_range]
    omega
  unfold View.tuple
  rw [List.ext_getElem?_iff]
  constructor
  · intro h k value f hvalue hf
    have hk := h k
    rw [List.getElem?_map, hf, hvalue] at hk
    exact (hcell k value f hvalue hf).mp (Option.some.inj hk)
  · intro h k
    rw [List.getElem?_map]
    cases hvalue : (v.values u .vacuous r)[k]? with
    | none =>
      rw [List.getElem?_eq_none_iff] at hvalue
      rw [List.getElem?_eq_none (by rw [length_fields, ← length_values (u := u) .vacuous r]; exact hvalue)]
      rfl
    | some value =>
      have hlt : k < (v.tableMeta .vacuous).fields.length := by
        rw [length_fields, ← length_values (u := u) .vacuous r]
        exact (List.getElem?_eq_some_iff.mp hvalue).1
      have hf := List.getElem?_eq_getElem hlt
      rw [hf]
      exact congrArg some ((hcell k value _ hvalue hf).mpr (h k value _ hvalue hf))

/-- Some record. -/
def zeros (m : TableMeta) : Record m := ⟨List.replicate m.recordSize 0, List.length_replicate⟩

theorem scan_all {kit : TrxKit} (memory : RecordId → Record (v.tableMeta kit))
    (rows : List (RecordId × Record (t.tableMeta kit))) :
    v.scan u kit memory (fun _ => true) rows = rows.map fun r => (r.1, v.record u kit r.2 (memory r.1)) :=
  List.filter_eq_self.mpr fun _ _ => rfl

/-- It is enough to look at the records of the table. -/
theorem scans_iff {kit : TrxKit} : v.Scans u kit ↔
    ∀ r memory, v.tuple u kit (v.record u kit r memory) = v.values u kit r := by
  unfold View.Scans
  constructor
  · intro h r memory
    have hrow := h (fun _ => memory) [(RecordId.min, r)]
    rw [scan_all] at hrow
    exact (List.cons.inj hrow).1
  · intro h memory rows
    rw [scan_all, List.map_map]
    exact List.map_congr_left fun r _ => h r.2 (memory r.1)

/-- Without fields of the transactions a scan gives the cells exactly if each has its place. -/
theorem scans_vacuous_iff : v.Scans u .vacuous ↔ v.AllKept u := by
  rw [scans_iff]
  constructor
  · intro h r
    exact (tuple_eq_iff r (zeros _)).mp (h r (zeros _))
  · intro h r memory
    exact (tuple_eq_iff r memory).mpr (h r)

end Vacuous

/-! ## The cells in the record -/

/-- Two fields lie apart. -/
def Apart (f g : FieldMeta) : Prop := f.offset + f.len ≤ g.offset ∨ g.offset + g.len ≤ f.offset

theorem pairwise_initFields (as : List AttrInfo) (offset : Nat) : (initFields offset as).Pairwise Apart := by
  induction as generalizing offset with
  | nil => exact .nil
  | cons a as ih => exact .cons (fun f hf => Or.inl (initFields_mem hf).1) (ih _)

/-- Column `k` lies behind the lengths of those in front of it. -/
theorem getElem?_initFields (as : List AttrInfo) (offset k : Nat) : (initFields offset as)[k]? =
    as[k]?.map fun a => ⟨a.type, offset + ((as.take k).map AttrInfo.length).sum, a.length, a.nullable⟩ := by
  induction as generalizing offset k with
  | nil => rfl
  | cons a as ih =>
    cases k with
    | zero => rfl
    | succ k =>
      rw [initFields, List.getElem?_cons_succ, List.getElem?_cons_succ, ih, List.take_succ_cons, List.map_cons,
        List.sum_cons, Nat.add_assoc]

section Fill

variable {u : Unspecified} {fs : List FieldMeta} {vs : List Value} {data : List UInt8} {g : FieldMeta}

/-- A column that is apart from those that are written keeps its bytes. -/
theorem columnOf_fillRecord_apart (hg : ∀ f ∈ fs, Apart f g) (h : ∀ f ∈ fs, f.offset + f.len ≤ data.length) :
    columnOf (fillRecord u fs vs data) g = columnOf data g := by
  induction fs generalizing vs data with
  | nil => rfl
  | cons f fs ih =>
    cases vs with
    | nil => rfl
    | cons v vs =>
      have hbytes := length_scanBytes u v f
      have hf := h f List.mem_cons_self
      have hlen : (copyTo data f.offset (scanBytes u v f)).length = data.length := length_copyTo (by omega)
      have hapart := hg f List.mem_cons_self
      rw [fillRecord, ih (fun f' hf' => hg f' (List.mem_cons_of_mem _ hf'))
        fun f' hf' => hlen ▸ h f' (List.mem_cons_of_mem _ hf')]
      apply columnOf_copyTo_apart
      · omega
      · unfold Apart at hapart
        omega

/-- A field without a cell. -/
theorem columnOf_fillRecord_rest (hapart : fs.Pairwise Apart) (h : ∀ f ∈ fs, f.offset + f.len ≤ data.length)
    {k : Nat} (hk : vs.length ≤ k) (hg : fs[k]? = some g) :
    columnOf (fillRecord u fs vs data) g = columnOf data g := by
  induction fs generalizing vs data k with
  | nil => rfl
  | cons f fs ih =>
    cases vs with
    | nil => rfl
    | cons v vs =>
      cases k with
      | zero => exact absurd hk (Nat.not_succ_le_zero _)
      | succ k =>
        rw [List.getElem?_cons_succ] at hg
        have hfg := (List.pairwise_cons.mp hapart).1 g (List.mem_of_getElem? hg)
        have hbytes := length_scanBytes u v f
        have hf := h f List.mem_cons_self
        have hlen : (copyTo data f.offset (scanBytes u v f)).length = data.length := length_copyTo (by omega)
        rw [fillRecord, ih (List.pairwise_cons.mp hapart).2
          (fun f' hf' => hlen ▸ h f' (List.mem_cons_of_mem _ hf')) (Nat.le_of_succ_le_succ hk) hg]
        apply columnOf_copyTo_apart
        · omega
        · unfold Apart at hfg
          omega

/-- A field with a cell. -/
theorem columnOf_fillRecord (hapart : fs.Pairwise Apart) (h : ∀ f ∈ fs, f.offset + f.len ≤ data.length)
    {k : Nat} {v : Value} (hg : fs[k]? = some g) (hv : vs[k]? = some v) :
    columnOf (fillRecord u fs vs data) g = scanBytes u v g := by
  induction fs generalizing vs data k with
  | nil => cases hg
  | cons f fs ih =>
    cases vs with
    | nil => cases hv
    | cons w vs =>
      obtain ⟨hfs, hrest⟩ := List.pairwise_cons.mp hapart
      have hbytes := length_scanBytes u w f
      have hf := h f List.mem_cons_self
      have hlen : (copyTo data f.offset (scanBytes u w f)).length = data.length := length_copyTo (by omega)
      have hle : ∀ f' ∈ fs, f'.offset + f'.len ≤ (copyTo data f.offset (scanBytes u w f)).length :=
        fun f' hf' => hlen ▸ h f' (List.mem_cons_of_mem _ hf')
      rw [fillRecord]
      cases k with
      | zero =>
        rw [List.getElem?_cons_zero, Option.some_inj] at hg hv
        subst hg hv
        -- the cells behind it do not reach its bytes
        rw [columnOf_fillRecord_apart (fun f' hf' => (hfs f' hf').symm) hle, columnOf_copyTo_self (by omega) hbytes]
      | succ k => exact ih hrest hle hg hv

end Fill

/-! ## With fields of the transactions -/

section Mvcc

variable {u : Unspecified} {v : View t}

/-- What is read depends on the first byte. -/
theorem setData_ne {type : AttrType} {xs ys : List UInt8} {length : Nat} (hpos : 0 < length)
    (hvectors : type = .vectors → 4 ≤ length) (hxs : 3 ≤ xs.length) (hys : 3 ≤ ys.length) :
    setData type (0 :: xs) length ≠ setData type (1 :: ys) length := by
  have hnumber : int32OfBytes ((0 :: xs).take 4) ≠ int32OfBytes ((1 :: ys).take 4) := by
    intro h
    have hbytes := congrArg int32Bytes h
    rw [int32Bytes_int32OfBytes (by rw [List.length_take, List.length_cons]; omega),
      int32Bytes_int32OfBytes (by rw [List.length_take, List.length_cons]; omega)] at hbytes
    exact absurd (List.cons.inj hbytes).1 (by decide)
  intro h
  cases type with
  | ints => exact hnumber (Value.ints.inj h)
  | floats => exact hnumber (Value.floats.inj h)
  | dates => exact hnumber (Value.dates.inj h)
  | chars =>
    obtain ⟨n, rfl⟩ := Nat.exists_eq_succ_of_ne_zero (Nat.ne_of_gt hpos)
    exact absurd (Value.chars.inj h) (List.cons_ne_nil _ _).symm
  | vectors =>
    have hle := hvectors rfl
    obtain ⟨n, hn⟩ : ∃ n, length / 4 = n + 1 := ⟨length / 4 - 1, by omega⟩
    rw [setData, setData, hn] at h
    exact hnumber (List.cons.inj (Value.vectors.inj h)).1

theorem SelectItem.wholeVector (item : SelectItem t) : WholeVector item.attrInfo := by
  cases item with
  | field i => exact t.vectors _ (List.get_mem _ _)
  | expr info vectors eval => exact vectors

theorem WholeVector.le {a : AttrInfo} (h : WholeVector a) (htype : a.type = .vectors) : 4 ≤ a.length := by
  have hmod := h htype
  have hpos := a.length_pos
  omega

/-- Some record with the same byte everywhere. -/
def filled (m : TableMeta) (b : UInt8) : Record m := ⟨List.replicate m.recordSize b, List.length_replicate⟩

theorem columnOf_filled {m : TableMeta} {b : UInt8} {f : FieldMeta} (h : f.offset + f.len ≤ m.recordSize) :
    columnOf (filled m b).val f = List.replicate f.len b := by
  unfold columnOf filled
  rw [List.drop_replicate, List.take_replicate]
  congr 1
  omega

/-- A cell starts with the bytes of its field. -/
theorem drop_offset {data : List UInt8} {f : FieldMeta} (tail : List UInt8) (h : f.offset + f.len ≤ data.length) :
    (data ++ tail).drop f.offset = columnOf data f ++ (data.drop (f.offset + f.len) ++ tail) := by
  unfold columnOf
  rw [List.drop_append_of_le_length (by omega), ← List.append_assoc, ← List.drop_drop, List.take_append_drop]

/-- The last field is not written: the cells are put into the fields from the first one on, which is one of the
    transactions. -/
theorem not_scans_mvcc : ¬ v.Scans u .mvcc := by
  rw [scans_iff]
  intro hscans
  let r := zeros (t.tableMeta .mvcc)
  obtain ⟨n, hn⟩ : ∃ n, v.attrInfos.length = n + 1 := by
    have hpos := List.length_pos_of_ne_nil v.nonempty
    refine ⟨v.columns.length - 1, ?_⟩
    unfold View.attrInfos
    rw [List.length_map]
    omega
  have hlt : n < v.columns.length := by
    have hcolumns : v.attrInfos.length = v.columns.length := List.length_map _
    omega
  -- the last field
  let item := (v.columns[n]).item
  have hinfo : v.attrInfos[n]? = some item.attrInfo := by
    unfold View.attrInfos
    rw [List.getElem?_map, List.getElem?_eq_getElem hlt]
    rfl
  obtain ⟨f, hf, htype, hflen⟩ : ∃ f : FieldMeta, (v.tableMeta .mvcc).fields[n]? = some f ∧
      f.type = item.attrInfo.type ∧ f.len = item.attrInfo.length := by
    refine ⟨_, (getElem?_initFields v.attrInfos 8 n).trans (congrArg _ hinfo), rfl, rfl⟩
  have hmeta : (v.fieldMetas .mvcc)[n + 2]? = some f := hf
  have hle := le_of_mem_fieldMetas .mvcc (List.mem_of_getElem? hmeta)
  have hpos := (initFields_mem (List.mem_of_getElem? hf)).2.1
  -- it keeps what stands in the memory
  have hcolumn : ∀ b, columnOf (v.record u .mvcc r (filled _ b)).val f = List.replicate f.len b := by
    intro b
    rw [← columnOf_filled hle]
    refine columnOf_fillRecord_rest (pairwise_initFields _ _) ?_ (k := n + 2) ?_ hmeta
    · intro g hg
      rw [(filled _ b).property]
      exact le_of_mem_fieldMetas .mvcc hg
    · rw [length_values]
      omega
  have hread : ∀ b, (v.values u .mvcc r)[n]?
      = some (cellAt ((v.record u .mvcc r (filled _ b)).val ++ behind u) f) := by
    intro b
    rw [← hscans r (filled _ b)]
    unfold View.tuple
    rw [List.getElem?_map, hf]
    rfl
  have heq := Option.some.inj ((hread 0).symm.trans (hread 1))
  have hdrop : ∀ b, ∃ xs, 3 ≤ xs.length ∧
      ((v.record u .mvcc r (filled _ b)).val ++ behind u).drop f.offset = b :: xs := by
    intro b
    rw [drop_offset _ (by rw [(v.record u .mvcc r (filled _ b)).property]; exact hle), hcolumn]
    obtain ⟨k, hk⟩ := Nat.exists_eq_succ_of_ne_zero (Nat.ne_of_gt hpos)
    rw [hk, List.replicate_succ, List.cons_append]
    refine ⟨_, ?_, rfl⟩
    simp only [List.length_append, behind, List.length_map, List.length_range]
    omega
  obtain ⟨xs, hxs, hx⟩ := hdrop 0
  obtain ⟨ys, hys, hy⟩ := hdrop 1
  unfold cellAt at heq
  rw [hx, hy] at heq
  refine setData_ne hpos (fun hv => ?_) hxs hys heq
  rw [hflen]
  exact item.wholeVector.le (htype.symm.trans hv)

end Mvcc

end Miniob.Views
