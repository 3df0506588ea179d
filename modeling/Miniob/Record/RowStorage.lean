/-
  The rows of INSERT (`check_and_convert_rows` in src/observer/sql/stmt/insert_stmt.cpp,
  `Table::make_record` in src/observer/storage/table/table.cpp and `RowTuple::cell_at` in
  src/observer/sql/expr/tuple.h).

  1. **Writing** — a row is checked and converted column by column, and `make_record` copies each value to
     the offset of its column; the fields of the transactions stand in front.
  2. **Reading** — `cellAt` takes four bytes for a number, whatever the length of the column is.
  3. **The columns** — a record is its columns one behind the other (`setFields_eq`), and what is read of
     one depends on its own bytes and on those behind it.

  Left out: views, whose columns are NULL if they are not given.
-/
import Miniob.Expr.Cast
import Miniob.Common.Bytes
import Miniob.Common.Run

namespace Miniob.RowStorage

open Miniob.Common Miniob.Index Miniob.Expr.Cast

/-! ## The table -/

/-- A column of `CREATE TABLE`; `FieldMeta::init` refuses one without a length. -/
structure AttrInfo where
  type : Expr.Cast.AttrType
  length : Nat
  nullable : Bool
  length_pos : 0 < length

/-- An INT takes four bytes. -/
theorem AttrInfo.ints_length_pos : 0 < 4 := by decide

structure FieldMeta where
  type : Expr.Cast.AttrType
  offset : Nat
  len : Nat
  nullable : Bool

structure TableMeta where
  /-- The length of the fields of the transactions. -/
  sysLen : Nat
  attributes : List AttrInfo

/-- The loop of `TableMeta::init`. -/
def initFields (offset : Nat) : List AttrInfo → List FieldMeta
  | [] => []
  | a :: as => ⟨a.type, offset, a.length, a.nullable⟩ :: initFields (offset + a.length) as

namespace TableMeta

/-- The fields that a statement sees. -/
def fields (table : TableMeta) : List FieldMeta := initFields table.sysLen table.attributes

def recordSize (table : TableMeta) : Nat := table.sysLen + (table.attributes.map AttrInfo.length).sum

end TableMeta

/-! ## Writing -/

/-- The first loop of `check_and_convert_rows`. -/
def convertRow (u : Unspecified) : List FieldMeta → List Item → Except RC (List Value)
  | f :: fs, x :: xs => do
    if !f.nullable && x.value.isNull then throw .variableNotValid
    let v ← convert u x f.type
    let v ← resize v f.len
    let vs ← convertRow u fs xs
    return v :: vs
  | _, _ => return []

/-- The second loop. -/
def checkRow : List FieldMeta → List Value → Except RC Unit
  | f :: fs, v :: vs => do
    if !f.nullable && v.isNull then throw .variableNotValid
    checkRow fs vs
  | _, _ => return ()

/-- `check_and_convert_rows`, for one row. -/
def checkAndConvertRow (u : Unspecified) (table : TableMeta) (row : List Item) : Except RC (List Value) := do
  if table.fields.length ≠ row.length then throw .variableNotValid
  let values ← convertRow u table.fields row
  checkRow table.fields values
  return values

/-- `memcpy`. -/
def copyTo (data : List UInt8) (offset : Nat) (bytes : List UInt8) : List UInt8 :=
  data.take offset ++ bytes ++ data.drop (offset + bytes.length)

/-- The bytes that are copied. -/
def valueBytes (u : Unspecified) (value : Value) (f : FieldMeta) : List UInt8 :=
  match value with
  | .chars data =>
    if value.isNull then List.replicate f.len 0
    else (data ++ [0]).take (if f.len > data.length then data.length + 1 else f.len)
  | .dates v | .ints v | .floats v =>
    (int32Bytes v ++ (List.range f.len).map (u.behindValue f.offset)).take f.len
  | .vectors units => (int32sBytes units ++ (List.range f.len).map (u.behindValue f.offset)).take f.len

/-- `Table::set_value_to_record`. -/
def setValueToRecord (u : Unspecified) (data : List UInt8) (value : Value) (f : FieldMeta) : List UInt8 :=
  copyTo data f.offset (valueBytes u value f)

/-- The loop of `Table::make_record`. -/
def setFields (u : Unspecified) : List FieldMeta → List Value → List UInt8 → Except RC (List UInt8)
  | f :: fs, v :: vs, data => do
    let real ← if f.type ≠ v.attrType then castTo u v f.type else .ok v
    let real ← resize real f.len
    setFields u fs vs (setValueToRecord u data real f)
  | _, _, data => return data

/-- `Table::make_record`. -/
def makeRecord (u : Unspecified) (table : TableMeta) (values : List Value) : Except RC (List UInt8) := do
  if values.length ≠ table.fields.length then throw .schemaFieldMissing
  setFields u table.fields values (List.replicate table.recordSize 0)

/-- The records of an `INSERT`. -/
def insertRows (u : Unspecified) (table : TableMeta) (rows : List (List Item)) :
    Except RC (List (List UInt8)) := do
  let values ← rows.mapM (checkAndConvertRow u table)
  values.mapM (makeRecord u table)

/-! ## Reading -/

/-- `Value::set_data`. -/
def setData (type : Expr.Cast.AttrType) (data : List UInt8) (length : Nat) : Value :=
  match type with
  | .chars => .chars (setString data length)
  | .ints => .ints (int32OfBytes (data.take 4))
  | .floats => .floats (int32OfBytes (data.take 4))
  | .dates => .dates (int32OfBytes (data.take 4))
  | .vectors => .vectors (int32sOfBytes (length / 4) data)

/-- `RowTuple::cell_at`. -/
def cellAt (data : List UInt8) (f : FieldMeta) : Value := setData f.type (data.drop f.offset) f.len

/-- A record in the memory: a transaction has written its own fields. -/
def stored (u : Unspecified) (sys record : List UInt8) : List UInt8 :=
  sys ++ record.drop sys.length ++ (List.range 4).map u.behindRecord

/-- Each column has what was inserted into it. -/
def RoundTrip (u : Unspecified) (table : TableMeta) (row : List Item) (record : List UInt8) : Prop :=
  ∀ (sys : List UInt8), sys.length = table.sysLen →
    ∀ (i : Nat) (f : FieldMeta) (x : Item), table.fields[i]? = some f → row[i]? = some x →
    Converts x f.type (cellAt (stored u sys record) f).read

/-! ## The columns -/

/-- The bytes of a column that gets the value, behind a record of zeros. -/
def columnBytes (u : Unspecified) (value : Value) (f : FieldMeta) : List UInt8 :=
  match value with
  | .chars data => (data ++ List.replicate f.len 0).take f.len
  | value => valueBytes u value f

/-- The value has its place in the column: a string that is not longer than the column, and a number
    whose upper bytes, if the column is shorter, are the bytes behind the column. -/
def Holds (value : Value) (f : FieldMeta) (behind : List UInt8) : Prop :=
  match value with
  | .chars data => data.length ≤ f.len
  | .dates v | .ints v | .floats v => behind.take (4 - f.len) = (int32Bytes v).drop f.len
  | .vectors _ => True

/-- The bytes of the columns, one behind the other. -/
def rowBytes (u : Unspecified) : List FieldMeta → List Item → List UInt8
  | f :: fs, x :: xs =>
    (match convert u x f.type with
      | .ok value => columnBytes u value f
      | .error _ => []) ++ rowBytes u fs xs
  | _, _ => []

/-- Each column keeps what is inserted into it. -/
def Good (u : Unspecified) (table : TableMeta) (row : List Item) : Prop :=
  ∀ (i : Nat) (f : FieldMeta) (x : Item), table.fields[i]? = some f → row[i]? = some x →
    Faithful x f.type ∧ ∀ value, convert u x f.type = .ok value →
      Holds value f (rowBytes u (table.fields.drop (i + 1)) (row.drop (i + 1)) ++
        (List.range 4).map u.behindRecord)

section

variable {u : Unspecified} {f : FieldMeta} {x : Item} {value real : Value}

/-- A column has as many bytes as its field. -/
theorem length_columnBytes (hlen : ∀ units, value = .vectors units → 4 * units.length = f.len) :
    (columnBytes u value f).length = f.len := by
  cases value with
  | chars data =>
    simp only [columnBytes, List.length_take, List.length_append, List.length_replicate]
    omega
  | vectors units =>
    have := hlen units rfl
    simp only [columnBytes, valueBytes, List.length_take, List.length_append, length_int32sBytes,
      List.length_map, List.length_range]
    omega
  | dates v | ints v | floats v =>
    simp only [columnBytes, valueBytes, List.length_take, List.length_append, length_int32Bytes,
      List.length_map, List.length_range]
    omega

/-- A vector of another length is refused. -/
theorem length_of_resize (h : resize value f.len = .ok real) :
    ∀ units, value = .vectors units → 4 * units.length = f.len := by
  rintro units rfl
  unfold resize at h
  dsimp only at h
  split at h
  · assumption
  · cases h

theorem takeWhile_text {data : List UInt8} (h : ∀ b ∈ data, b ≠ 0) :
    data.takeWhile (· ≠ 0) = data :=
  List.takeWhile_eq_self_iff.mpr fun b hb => decide_eq_true (h b hb)

/-- A value that is resized once more stays as it is, and its bytes and the zeros behind them are those
    of the column. -/
theorem resize_ok (hpos : 0 < f.len) (htext : ∀ data, value = .chars data → ∀ b ∈ data, b ≠ 0)
    (h : resize value f.len = .ok real) :
    real.attrType = value.attrType ∧ resize real f.len = .ok real ∧
      valueBytes u real f ++ List.replicate (f.len - (valueBytes u real f).length) 0 = columnBytes u value f := by
  have h0 := h
  -- the cases are those of the type; only texts are cut or filled up
  cases value with
  | chars data =>
    have htext := htext data rfl
    unfold resize at h
    dsimp only at h
    split at h
    -- a long text is cut at the length of the column
    · rename_i hlong
      cases h
      refine ⟨rfl, by simp [resize, hlong], ?_⟩
      have hne : data ≠ [] := by
        rintro rfl
        simp at hlong
        omega
      have hbytes : valueBytes u (.chars data) f = data.take f.len := by
        simp only [valueBytes, isNull_chars_of_ne hne htext, Bool.false_eq_true, if_false]
        rw [if_neg (by omega), List.take_append_of_le_length hlong]
      rw [hbytes, columnBytes, List.take_append_of_le_length hlong, List.length_take,
        Nat.min_eq_left hlong, Nat.sub_self, List.replicate_zero, List.append_nil]
    -- a short text is filled up with zeros, and the empty one is NULL
    · rename_i hshort
      split at h
      · rename_i hnull
        have hdata : data = [] := by
          by_contra hne
          exact absurd hnull (by simp [isNull_chars_of_ne hne htext])
        cases h
        subst hdata
        refine ⟨rfl, ?_, ?_⟩
        · simp [resize, Value.isNull]
        · simp [valueBytes, columnBytes, Value.isNull]
      · rename_i hnull
        cases h
        rw [takeWhile_text htext]
        have hlen : (data ++ List.replicate (f.len - data.length) 0).length = f.len := by
          rw [List.length_append, List.length_replicate]
          omega
        refine ⟨rfl, ?_, ?_⟩
        · unfold resize
          dsimp only
          rw [if_pos (le_of_eq hlen.symm)]
        -- a text that is filled up is not NULL, as its first byte is its own
        · have hnull : (Value.chars (data ++ List.replicate (f.len - data.length) 0)).isNull = false := by
            obtain ⟨b, rest, rfl⟩ := List.exists_cons_of_ne_nil (fun hnil => hnull (hnil ▸ rfl) : data ≠ [])
            exact decide_eq_false (htext b List.mem_cons_self)
          have hbytes : valueBytes u (.chars (data ++ List.replicate (f.len - data.length) 0)) f =
              data ++ List.replicate (f.len - data.length) 0 := by
            simp only [valueBytes, hnull, Bool.false_eq_true, if_false]
            rw [hlen, if_neg (by omega), List.take_append_of_le_length (le_of_eq hlen.symm),
              List.take_of_length_le (le_of_eq hlen)]
          rw [hbytes, hlen, Nat.sub_self, List.replicate_zero, List.append_nil, columnBytes,
            List.take_append, List.take_of_length_le (by omega), List.take_replicate,
            Nat.min_eq_left (by omega)]
  | vectors units =>
    have hlen := length_of_resize h units rfl
    unfold resize at h
    dsimp only at h
    rw [if_pos hlen] at h
    cases h
    refine ⟨rfl, by simp [resize, hlen], ?_⟩
    have hwidth := @length_columnBytes u f (.vectors units) (length_of_resize h0)
    unfold columnBytes at hwidth ⊢
    rw [hwidth, Nat.sub_self, List.replicate_zero, List.append_nil]
  -- numbers and dates have the length of their column
  | dates v | ints v | floats v =>
    cases h
    refine ⟨rfl, rfl, ?_⟩
    have hwidth := @length_columnBytes u f _ (length_of_resize h0)
    unfold columnBytes at hwidth ⊢
    rw [hwidth, Nat.sub_self, List.replicate_zero, List.append_nil]

/-- No value is longer than its field. -/
theorem length_valueBytes (u : Unspecified) (value : Value) (f : FieldMeta) :
    (valueBytes u value f).length ≤ f.len := by
  unfold valueBytes
  split
  · split
    · rw [List.length_replicate]
    · rw [List.length_take]
      split <;> omega
  · exact List.length_take_le _ _
  · exact List.length_take_le _ _
  · exact List.length_take_le _ _
  · exact List.length_take_le _ _

/-! ## Writing the columns -/

/-- A row is converted value by value. -/
theorem convertRow_cons {fs : List FieldMeta} {xs : List Item} {vs : List Value}
    (h : convertRow u (f :: fs) (x :: xs) = .ok vs) :
    ∃ value real vs', convert u x f.type = .ok value ∧ resize value f.len = .ok real ∧
      convertRow u fs xs = .ok vs' ∧ vs = real :: vs' := by
  rw [convertRow] at h
  split at h
  · cases h
  · cases hvalue : convert u x f.type with
    | error rc =>
      rw [hvalue] at h
      cases h
    | ok value =>
      rw [hvalue] at h
      cases hreal : resize value f.len with
      | error rc =>
        simp only [Except.bind, bind, hreal] at h
        cases h
      | ok real =>
        cases hvs : convertRow u fs xs with
        | error rc =>
          simp only [Except.bind, bind, hreal, hvs] at h
          cases h
        | ok vs' =>
          simp only [Except.bind, bind, hreal, hvs] at h
          exact ⟨value, real, vs', rfl, hreal, rfl, (Except.ok.inj h).symm⟩

theorem copyTo_zeros {pre bytes : List UInt8} {len rest : Nat} (h : bytes.length ≤ len) :
    copyTo (pre ++ List.replicate (len + rest) 0) pre.length bytes =
      pre ++ (bytes ++ List.replicate (len - bytes.length) 0) ++ List.replicate rest 0 := by
  unfold copyTo
  rw [List.take_left, ← List.drop_drop, List.drop_left, List.drop_replicate,
    show len + rest - bytes.length = len - bytes.length + rest by omega, List.replicate_add]
  simp only [List.append_assoc]

/-- A record is its columns. -/
theorem setFields_eq : ∀ (as : List AttrInfo) (xs : List Item) (vs : List Value) (pre : List UInt8),
    xs.length = as.length → convertRow u (initFields pre.length as) xs = .ok vs →
    setFields u (initFields pre.length as) vs
      (pre ++ List.replicate (as.map AttrInfo.length).sum 0) =
      .ok (pre ++ rowBytes u (initFields pre.length as) xs) := by
  intro as
  induction as with
  | nil =>
    intro xs vs pre _ _
    rfl
  | cons a as ih =>
    intro xs vs pre hlen h
    obtain ⟨x, xs, rfl⟩ := List.exists_cons_of_length_pos (hlen ▸ Nat.succ_pos _ : 0 < xs.length)
    obtain ⟨value, real, vs', hvalue, hreal, hvs, rfl⟩ := convertRow_cons h
    generalize hf : (⟨a.type, pre.length, a.length, a.nullable⟩ : FieldMeta) = f at hvalue hreal
    have hoffset : f.offset = pre.length := hf ▸ rfl
    have hflen : f.len = a.length := hf ▸ rfl
    have hpos : 0 < f.len := hflen ▸ a.length_pos
    have htext : ∀ data, value = .chars data → ∀ b ∈ data, b ≠ 0 := by
      rintro data rfl
      exact ne_zero_of_convert hvalue
    obtain ⟨htype, hagain, hbytes⟩ := resize_ok (u := u) hpos htext hreal
    have hwidth := length_columnBytes (u := u) (length_of_resize hreal)
    have hnext : (pre ++ columnBytes u value f).length = pre.length + a.length := by
      rw [List.length_append, hwidth, hflen]
    have hih := ih xs vs' (pre ++ columnBytes u value f) (by simpa using hlen) (by rwa [hnext])
    rw [hnext] at hih
    rw [initFields, hf, setFields, rowBytes, hvalue, htype, attrType_of_convert hvalue]
    simp only [ne_eq, not_true_eq_false, if_false, bind, Except.bind, hagain]
    unfold setValueToRecord
    rw [List.map_cons, List.sum_cons, hoffset, ← hflen,
      copyTo_zeros (length_valueBytes u real f), hbytes, hflen, hih, List.append_assoc]

/-! ## Reading a column -/

theorem head?_int32Bytes (v : Int32) :
    (int32Bytes v).head? = some (UInt8.ofNat (v.toInt % (256 ^ 4 : Nat)).toNat) := rfl

theorem emod_of_head? {v r : Int32} (h : (int32Bytes r).head? = (int32Bytes v).head?) :
    r.toInt % 256 = v.toInt % 256 := by
  rw [head?_int32Bytes, head?_int32Bytes, Option.some_inj] at h
  have h := congrArg UInt8.toNat h
  rw [UInt8.toNat_ofNat', UInt8.toNat_ofNat'] at h
  omega

/-- What is read of a number. -/
theorem read_number {v : Int32} {behind pad : List UInt8} {len : Nat} (hpos : 0 < len)
    (hpad : pad.length = len) (hbehind : 4 ≤ behind.length) :
    let r := int32OfBytes (((int32Bytes v ++ pad).take len ++ behind).take 4)
    r.toInt % 256 = v.toInt % 256 ∧ (r = v ↔ behind.take (4 - len) = (int32Bytes v).drop len) := by
  have hv := length_int32Bytes v
  have hbytes : ((int32Bytes v ++ pad).take len ++ behind).take 4 =
      (int32Bytes v).take len ++ behind.take (4 - len) := by
    rw [List.take_append, List.take_take, List.take_append_of_le_length (by omega), List.length_take,
      List.length_append, Nat.min_eq_left (by omega : len ≤ _)]
    congr 1
    rcases Nat.le_total len 4 with h | h
    · rw [Nat.min_eq_right h]
    · rw [Nat.min_eq_left h, List.take_of_length_le (by omega), List.take_of_length_le (by omega)]
  rw [hbytes]
  intro r
  have hr : int32Bytes r = (int32Bytes v).take len ++ behind.take (4 - len) :=
    int32Bytes_int32OfBytes (by
      rw [List.length_append, List.length_take, List.length_take]
      omega)
  refine ⟨emod_of_head? ?_, ?_⟩
  · rw [hr, List.head?_append_of_ne_nil _ (fun h => ?_), List.head?_take, if_neg (by omega)]
    have := congrArg List.length h
    rw [List.length_take, List.length_nil] at this
    omega
  · constructor
    · intro h
      rw [h] at hr
      conv at hr => lhs; rw [← List.take_append_drop len (int32Bytes v)]
      exact (List.append_cancel_left hr).symm
    · intro h
      rw [h, List.take_append_drop] at hr
      exact int32Bytes_inj hr

/-- What is read of a column. -/
theorem converts_cell_iff {behind : List UInt8} (hpos : 0 < f.len) (hbehind : 4 ≤ behind.length)
    (hvalue : convert u x f.type = .ok value) (hreal : resize value f.len = .ok real) :
    Converts x f.type (setData f.type (columnBytes u value f ++ behind) f.len).read ↔
      Faithful x f.type ∧ Holds value f behind := by
  have hpad : ((List.range f.len).map (u.behindValue f.offset)).length = f.len := by
    rw [List.length_map, List.length_range]
  have htype := attrType_of_convert hvalue
  have hiff := converts_read_iff hvalue
  -- a value with its place is read as it is, and what is read otherwise is not what it should be
  have hcell : ∀ r, setData f.type (columnBytes u value f ++ behind) f.len = r →
      (r = value ↔ Holds value f behind) → (Converts x f.type r.read → r = value) →
      (Converts x f.type (setData f.type (columnBytes u value f ++ behind) f.len).read ↔
        Faithful x f.type ∧ Holds value f behind) := by
    rintro r rfl hholds hconv
    constructor
    · intro h
      have heq := hconv h
      exact ⟨hiff.mp (heq ▸ h), hholds.mp heq⟩
    · rintro ⟨hf, h⟩
      rw [hholds.mpr h]
      exact hiff.mpr hf
  cases value with
  | ints v | floats v | dates v =>
    obtain ⟨hlow, heq⟩ := read_number (v := v) hpos hpad hbehind
    rw [← htype] at hcell ⊢
    refine hcell _ rfl ?_ (eq_of_converts (htype ▸ hvalue) hlow)
    simp only [setData, Value.attrType, columnBytes, valueBytes, Holds, Value.ints.injEq,
      Value.floats.injEq, Value.dates.injEq]
    exact heq
  | vectors units =>
    have hlen := length_of_resize hreal units rfl
    have hunits : f.len / 4 = units.length := by omega
    have hbytes : columnBytes u (.vectors units) f = int32sBytes units := by
      simp only [columnBytes, valueBytes]
      rw [List.take_left' (by rw [length_int32sBytes, hlen])]
    have heq : setData f.type (columnBytes u (.vectors units) f ++ behind) f.len = .vectors units := by
      rw [← htype, hbytes]
      simp only [setData, Value.attrType]
      rw [hunits, int32sOfBytes_int32sBytes]
    exact hcell _ heq (iff_of_true rfl trivial) fun _ => rfl
  | chars data =>
    have htext := ne_zero_of_convert hvalue
    have heq : setData f.type (columnBytes u (.chars data) f ++ behind) f.len = .chars (data.take f.len) := by
      rw [← htype]
      have hwidth : (columnBytes u (.chars data) f).length = f.len :=
        length_columnBytes (length_of_resize hreal)
      simp only [setData, Value.attrType, setString]
      rw [List.take_left' hwidth, columnBytes, List.take_append]
      congr 1
      rw [List.takeWhile_append_of_pos fun b hb => decide_eq_true (htext b (List.mem_of_mem_take hb)),
        List.take_replicate]
      cases min (f.len - data.length) f.len <;> simp [List.replicate_succ]
    refine hcell _ heq ?_ ?_
    · rw [Value.chars.injEq, List.take_eq_self_iff]
      rfl
    · intro h
      by_cases hdata : data = []
      · rw [hdata, List.take_nil]
      · rw [← htype] at h
        exact (read_eq_some.mp (h.eq_chars (htype ▸ hvalue) hdata)).2

/-- Each column of a record is read from its own bytes and those behind it. -/
theorem converts_cellAt_iff {tail : List UInt8} (htail : 4 ≤ tail.length) :
    ∀ (as : List AttrInfo) (xs : List Item) (vs : List Value) (pre : List UInt8),
    xs.length = as.length → convertRow u (initFields pre.length as) xs = .ok vs →
    ∀ (i : Nat) (f : FieldMeta) (x : Item),
    (initFields pre.length as)[i]? = some f → xs[i]? = some x →
    (Converts x f.type (cellAt (pre ++ rowBytes u (initFields pre.length as) xs ++ tail) f).read ↔
      Faithful x f.type ∧ ∀ value, convert u x f.type = .ok value →
        Holds value f (rowBytes u ((initFields pre.length as).drop (i + 1)) (xs.drop (i + 1)) ++ tail)) := by
  -- the induction is on the columns, with the bytes of those before in `pre`
  intro as
  induction as with
  | nil =>
    intro xs vs pre _ _ i f x hf
    cases hf
  | cons a as ih =>
    intro xs vs pre hlen h i f x hf hx
    obtain ⟨x0, xs, rfl⟩ := List.exists_cons_of_length_pos (hlen ▸ Nat.succ_pos _ : 0 < xs.length)
    obtain ⟨value, real, vs', hvalue, hreal, hvs, rfl⟩ := convertRow_cons h
    have hwidth := length_columnBytes (u := u) (length_of_resize hreal)
    rw [initFields] at hf ⊢
    -- the column in question is the first one, or one of the rest
    cases i with
    | zero =>
      rw [List.getElem?_cons_zero, Option.some_inj] at hf hx
      subst hf hx
      have hbehind : 4 ≤ (rowBytes u (initFields (pre.length + a.length) as) xs ++ tail).length := by
        rw [List.length_append]
        omega
      have hcell := converts_cell_iff a.length_pos hbehind hvalue hreal
      rw [rowBytes, hvalue, List.drop_succ_cons, List.drop_zero, List.drop_succ_cons, List.drop_zero]
      unfold cellAt
      rw [List.append_assoc, List.drop_left, List.append_assoc, hcell]
      constructor
      · rintro ⟨hf, hh⟩
        exact ⟨hf, fun value' hv => Except.ok.inj hv ▸ hh⟩
      · rintro ⟨hf, hh⟩
        exact ⟨hf, hh value rfl⟩
    | succ i =>
      rw [List.getElem?_cons_succ] at hf hx
      have hnext : (pre ++ columnBytes u value ⟨a.type, pre.length, a.length, a.nullable⟩).length =
          pre.length + a.length := by
        rw [List.length_append, hwidth]
      have hih := ih xs vs' (pre ++ columnBytes u value ⟨a.type, pre.length, a.length, a.nullable⟩)
        (by simpa using hlen) (by rwa [hnext]) i f x (by rwa [hnext]) hx
      rw [hnext] at hih
      rw [rowBytes, hvalue, List.drop_succ_cons, List.drop_succ_cons, ← List.append_assoc, hih]

end

/-! ## Rows that `INSERT` accepts -/

/-- A row that is accepted has as many values as the table has fields. -/
theorem checkAndConvertRow_ok {u : Unspecified} {table : TableMeta} {row : List Item} {values : List Value}
    (h : checkAndConvertRow u table row = .ok values) :
    row.length = table.fields.length ∧ convertRow u table.fields row = .ok values := by
  unfold checkAndConvertRow at h
  split at h
  · cases h
  · rename_i hlen
    cases hvalues : convertRow u table.fields row with
    | error rc =>
      rw [hvalues] at h
      cases h
    | ok vs =>
      rw [hvalues] at h
      cases hcheck : checkRow table.fields vs with
      | error rc =>
        simp only [Except.bind, bind, hcheck] at h
        cases h
      | ok _ =>
        simp only [Except.bind, bind, hcheck] at h
        exact ⟨(not_ne_iff.mp hlen).symm, h⟩

theorem length_initFields (as : List AttrInfo) (offset : Nat) : (initFields offset as).length = as.length := by
  induction as generalizing offset with
  | nil => rfl
  | cons a as ih => rw [initFields, List.length_cons, ih, List.length_cons]

/-- The record of a row that is accepted. -/
theorem makeRecord_eq {u : Unspecified} {table : TableMeta} {row : List Item} {values : List Value}
    {record : List UInt8} (hvalues : checkAndConvertRow u table row = .ok values)
    (hrecord : makeRecord u table values = .ok record) :
    record = List.replicate table.sysLen 0 ++ rowBytes u table.fields row := by
  obtain ⟨hlen, hrow⟩ := checkAndConvertRow_ok hvalues
  unfold makeRecord at hrecord
  split at hrecord
  · cases hrecord
  · have hpre : (List.replicate table.sysLen (0 : UInt8)).length = table.sysLen := List.length_replicate
    have hset := setFields_eq (u := u) table.attributes row values (List.replicate table.sysLen 0)
      (by rw [hlen, TableMeta.fields, length_initFields]) (by rwa [hpre])
    rw [hpre, ← List.replicate_add] at hset
    exact Except.ok.inj (hrecord.symm.trans hset)

/-- The columns of one row. -/
theorem roundTrip_iff_good {u : Unspecified} {table : TableMeta} {row : List Item} {values : List Value}
    {record : List UInt8} (hvalues : checkAndConvertRow u table row = .ok values)
    (hrecord : makeRecord u table values = .ok record) :
    RoundTrip u table row record ↔ Good u table row := by
  have heq := makeRecord_eq hvalues hrecord
  obtain ⟨hlen, hrow⟩ := checkAndConvertRow_ok hvalues
  have htail : 4 ≤ ((List.range 4).map u.behindRecord).length := by
    rw [List.length_map, List.length_range]
  have hcell : ∀ sys : List UInt8, sys.length = table.sysLen →
      ∀ (i : Nat) (f : FieldMeta) (x : Item), table.fields[i]? = some f → row[i]? = some x →
      (Converts x f.type (cellAt (stored u sys record) f).read ↔
        Faithful x f.type ∧ ∀ value, convert u x f.type = .ok value →
          Holds value f (rowBytes u (table.fields.drop (i + 1)) (row.drop (i + 1)) ++
            (List.range 4).map u.behindRecord)) := by
    intro sys hsys i f x hf hx
    unfold stored
    rw [heq, hsys, List.drop_left' List.length_replicate]
    unfold TableMeta.fields at hf hrow hlen ⊢
    rw [← hsys] at hf hrow hlen ⊢
    exact converts_cellAt_iff htail table.attributes row values sys
      (by rw [hlen, length_initFields]) hrow i f x hf hx
  constructor
  · intro h i f x hf hx
    have hsys : (List.replicate table.sysLen (0 : UInt8)).length = table.sysLen := List.length_replicate
    exact (hcell _ hsys i f x hf hx).mp (h _ hsys i f x hf hx)
  · intro h sys hsys i f x hf hx
    exact (hcell sys hsys i f x hf hx).mpr (h i f x hf hx)

/-- Each result comes from the element at its place. -/
theorem mapM_ok_getElem? {α β ε : Type} {f : α → Except ε β} {xs : List α} {ys : List β}
    (h : xs.mapM f = .ok ys) {i : Nat} {y : β} (hy : ys[i]? = some y) :
    ∃ x, xs[i]? = some x ∧ f x = .ok y := by
  induction xs generalizing ys i with
  | nil =>
    cases h
    cases hy
  | cons x xs ih =>
    rw [List.mapM_cons] at h
    obtain ⟨z, hx, h⟩ := ok_of_bind h
    obtain ⟨zs, hzs, h⟩ := ok_of_bind h
    cases h
    cases i with
    | zero =>
      cases hy
      exact ⟨x, rfl, hx⟩
    | succ i => exact ih hzs hy

/-- A row that `INSERT` accepts is read as it was inserted exactly if no value is lost in its conversion and
    each has its place in its column. -/
theorem row_round_trip_iff (u : Unspecified) (table : TableMeta) (rows : List (List Item))
    (records : List (List UInt8)) (h : insertRows u table rows = .ok records) (k : Nat)
    (row : List Item) (record : List UInt8) (hrow : rows[k]? = some row)
    (hrecord : records[k]? = some record) :
    RoundTrip u table row record ↔ Good u table row := by
  unfold insertRows at h
  cases hvalues : rows.mapM (checkAndConvertRow u table) with
  | error rc =>
    rw [hvalues] at h
    cases h
  | ok values =>
    rw [hvalues] at h
    obtain ⟨v, hv, hmake⟩ := mapM_ok_getElem? h hrecord
    obtain ⟨row', hrow', hcheck⟩ := mapM_ok_getElem? hvalues hv
    cases hrow.symm.trans hrow'
    exact roundTrip_iff_good hcheck hmake

/-- An INT and a string as long as its column. -/
theorem row_round_trip_iff_sample :
    let u : Unspecified := ⟨fun _ => 0, fun _ => 0, fun _ _ => 0, fun _ => 0⟩
    let table : TableMeta := ⟨8, [⟨.ints, 4, false, by decide⟩, ⟨.chars, 2, true, by decide⟩]⟩
    let row : List Item := [.ints 7, .chars ⟨[97, 98], noZeros rfl⟩]
    RoundTrip u table row [0, 0, 0, 0, 0, 0, 0, 0, 7, 0, 0, 0, 97, 98] ↔ Good u table row :=
  row_round_trip_iff _ _ [[.ints 7, .chars ⟨[97, 98], noZeros rfl⟩]] _ rfl 0 _ _ rfl rfl

/-- A string that is longer than its column is cut, and an empty one is read as NULL. -/
theorem row_round_trip_fails :
    let u : Unspecified := ⟨fun _ => 0, fun _ => 0, fun _ _ => 0, fun _ => 0⟩
    let table : TableMeta := ⟨0, [⟨.chars, 2, true, by decide⟩]⟩
    (insertRows u table [[.chars ⟨[97, 98, 99], noZeros rfl⟩], [.chars ⟨[], noZeros rfl⟩]] =
      .ok [[97, 98], [0, 0]] ∧
    ¬ RoundTrip u table [.chars ⟨[97, 98, 99], noZeros rfl⟩] [97, 98] ∧
    ¬ RoundTrip u table [.chars ⟨[], noZeros rfl⟩] [0, 0]) := by
  refine ⟨rfl, fun h => ?_, fun h => ?_⟩
  · have hread := h [] rfl 0 _ _ rfl rfl
    exact absurd hread (by simp only [Converts]; decide)
  · have hread := h [] rfl 0 _ _ rfl rfl
    exact absurd hread (by simp only [Converts]; decide)

end Miniob.RowStorage
