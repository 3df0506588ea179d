/-
  LOAD DATA (`load_data_executor.cpp`, and `split_string` and `strip` in src/deps/common/lang/string.cpp).

  1. A line is split at its bars, each piece is read as its column's type, and the record goes into the table.
  2. `split_string` drops the empty pieces, so that the fields behind an empty one move to the left
     (`splitString_eq`); and the code of a line that fails ends the loop, but the result is set to SUCCESS.
  3. So the statement does what it should exactly if no line fails and no field is empty (`Loadable`); that
     the columns then hold the fields is the round trip of the record (`roundTrip_iff_good`).

  Left out: the names of the table and of the file, the texts of the messages, and the time it takes.  Reading a
  float is a parameter: `>>` of a stream, with nothing left behind the number.
-/
import Miniob.Common.Related
import Miniob.Db.Contents
import Miniob.Db.InsertRecord
import Miniob.Record.RowStorage

namespace Miniob.LoadData

open Miniob.Db Miniob.Storage Miniob.RowStorage
open Miniob.Expr.Cast (Value Item Unspecified Fits Text)

variable {U : Type}

/-! ## Texts -/

/-- `isspace`. -/
def isSpace (b : UInt8) : Bool := b == 32 || (9 ≤ b && b ≤ 13)

/-- `is_blank`, which ends at a NUL. -/
def isBlank (s : List UInt8) : Bool := (s.takeWhile (· ≠ 0)).all isSpace

/-- `split_string` with the delimiter `|`; lines are shorter than 2^31. -/
def splitString (tmpStr : List UInt8) : List (List UInt8) :=
  match h : tmpStr.findIdx? (· == 124) with
  | none => if tmpStr.length > 0 then [tmpStr] else []
  | some cutAt =>
    if cutAt > 0 then tmpStr.take cutAt :: splitString (tmpStr.drop (cutAt + 1))
    else splitString (tmpStr.drop (cutAt + 1))
termination_by tmpStr.length
decreasing_by
  all_goals
    have hlt : cutAt < tmpStr.length := (List.findIdx?_eq_some_iff_findIdx_eq.mp h).1
    rw [List.length_drop]
    omega

/-- What happens besides an answer. -/
inductive Fault where
  /-- `strip` reads in front of a string of blanks. -/
  | undefined
  | table (fault : Db.Fault)

/-- The return codes; those of `make_record` and `insert_record` are handed up. -/
inductive RC where
  | success
  | fileNotExist
  | schemaFieldMissing
  | schemaFieldTypeMismatch
  | unsupported
  | makeRecord (rc : Expr.Cast.RC)
  | insertRecord (rc : Storage.RC)
  deriving DecidableEq

/-- Without the blanks in front and behind. -/
def trim (s : List UInt8) : List UInt8 := ((s.dropWhile isSpace).reverse.dropWhile isSpace).reverse

/-- `strip`: `tail` stops at `head`, but starts in front of it where there are only blanks. -/
def strip (s : List UInt8) : Except Fault (List UInt8) :=
  if s.all isSpace then .error .undefined else .ok (trim s)

/-- The digits of a number. -/
def readDigits (s : List UInt8) : Option Nat :=
  if s ≠ [] ∧ s.all (fun b => 48 ≤ b && b ≤ 57) then some (s.foldl (fun n b => n * 10 + (b.toNat - 48)) 0)
  else none

def fitting (z : Int) : Option Int32 := if Fits z then some (.ofInt z) else none

/-- `>>` of an `int` from a stream without blanks in front, with nothing left behind the number. -/
def readInt : List UInt8 → Option Int32
  | 43 :: s => (readDigits s).bind fun n => fitting n
  | 45 :: s => (readDigits s).bind fun n => fitting (-n)
  | s => (readDigits s).bind fun n => fitting n

/-- `>>` of a `float`, likewise: its bits. -/
structure FloatReader where
  read : List UInt8 → Option Int32
  read_nil : read [] = none

/-! ## The executor -/

section Executor

variable (readFloat : FloatReader)

/-- `set_value_from_str` of the types. -/
def setValueFromStr (type : Expr.Cast.AttrType) (data : List UInt8) : Except RC Value :=
  match type with
  | .chars => .ok (.chars (data.takeWhile (· ≠ 0)))
  | .ints => match readInt data with
    | some v => .ok (.ints v)
    | none => .error .schemaFieldTypeMismatch
  | .floats => match readFloat.read data with
    | some v => .ok (.floats v)
    | none => .error .schemaFieldTypeMismatch
  | .dates => .error .unsupported
  | .vectors => .error .unsupported

/-- The text of a field. -/
def fieldText (f : FieldMeta) (fileValue : List UInt8) : Except Fault (List UInt8) :=
  if f.type ≠ .chars then strip fileValue else .ok fileValue

/-- The loop over the fields: `record_values`, or the code of the first one that fails. -/
def recordValues : List FieldMeta → List (List UInt8) → Except Fault (Except RC (List Value))
  | f :: fs, x :: xs =>
    match fieldText f x with
    | .error fault => .error fault
    | .ok data =>
      match setValueFromStr readFloat f.type data with
      | .error rc => .ok (.error rc)
      | .ok v => (recordValues fs xs).map fun values => values.map (v :: ·)
  | _, _ => .ok (.ok [])

variable (u : Unspecified) (tableMeta : TableMeta) (p : Placement (List UInt8))

/-- The end of `insert_record_from_file`; the fields of the transactions are 0.  `n` counts the records. -/
def insertValues (n : Nat) (t : Table (List UInt8) U) (values : List Value) :
    Except Fault (RC × Table (List UInt8) U) :=
  match makeRecord u tableMeta values with
  | .error rc => .ok (.makeRecord rc, t)
  | .ok record =>
    match t.insertRecord (p.place n) ⟨0, 0, record⟩ with
    | .error fault => .error (.table fault)
    | .ok (rc, _, t') => .ok (if rc = .success then .success else .insertRecord rc, t')

/-- `insert_record_from_file`. -/
def insertRecordFromFile (n : Nat) (fileValues : List (List UInt8)) (t : Table (List UInt8) U) :
    Except Fault (RC × Table (List UInt8) U) :=
  if fileValues.length < tableMeta.fields.length then .ok (.schemaFieldMissing, t)
  else
    match recordValues readFloat tableMeta.fields fileValues with
    | .error fault => .error fault
    | .ok (.error rc) => .ok (rc, t)
    | .ok (.ok values) => insertValues u tableMeta p n t values

/-- Where the loop over the lines ends. -/
structure Ended (U : Type) where
  rc : RC
  lineNum : Nat
  insertionCount : Nat
  table : Table (List UInt8) U

/-- The loop over the lines. -/
def loadLines : List (List UInt8) → Nat → Nat → Table (List UInt8) U → Except Fault (Ended U)
  | [], lineNum, insertionCount, t => .ok ⟨.success, lineNum, insertionCount, t⟩
  | line :: lines, lineNum, insertionCount, t =>
    if isBlank line then loadLines lines (lineNum + 1) insertionCount t
    else
      match insertRecordFromFile readFloat u tableMeta p insertionCount (splitString line) t with
      | .error fault => .error fault
      | .ok (rc, t') =>
        if rc = .success then loadLines lines (lineNum + 1) (insertionCount + 1) t'
        else .ok ⟨rc, lineNum + 1, insertionCount, t'⟩

/-- The message. -/
inductive StateString where
  | failedToOpen
  | insertFailed (lineNum : Nat) (rc : RC)
  | total (lineNum insertionCount : Nat)

structure SqlResult where
  returnCode : RC
  stateString : StateString

/-- The lines of a file, as `getline` gives them until it meets the end. -/
def linesOf (content : List UInt8) : List (List UInt8) := content.splitOn 10

/-- `load_data`; there is no content if the file cannot be opened. -/
def loadData (file : Option (List UInt8)) (t : Table (List UInt8) U) :
    Except Fault (SqlResult × Table (List UInt8) U) :=
  match file with
  | none => .ok (⟨.fileNotExist, .failedToOpen⟩, t)
  | some content => (loadLines readFloat u tableMeta p (linesOf content) 0 0 t).map fun e =>
    (⟨.success, if e.rc = .success then .total e.lineNum e.insertionCount else .insertFailed e.lineNum e.rc⟩,
      e.table)

/-- `execute`: its own code, and what it has set. -/
def execute (file : Option (List UInt8)) (t : Table (List UInt8) U) :
    Except Fault ((RC × SqlResult) × Table (List UInt8) U) :=
  (loadData readFloat u tableMeta p file t).map fun answer => ((.success, answer.1), answer.2)

end Executor

/-! ## What LOAD DATA should do -/

/-- The fields of a line, the empty ones too. -/
def fieldsOf (line : List UInt8) : List (List UInt8) := line.splitOn 124

/-- The lines with something in them. -/
def nonBlank (content : List UInt8) : List (List UInt8) :=
  (linesOf content).filter fun line => !line.all isSpace

section Specification

variable (readFloat : FloatReader)

theorem ne_zero_of_all {field : List UInt8} (h : field.all (fun b => b != 0) = true) : ∀ b ∈ field, b ≠ 0 :=
  fun b hb => bne_iff_ne.mp (List.all_eq_true.mp h b hb)

/-- What a field says: a number, or a text. -/
def fieldItem (type : Expr.Cast.AttrType) (field : List UInt8) : Option Item :=
  match type with
  | .ints => (readInt (trim field)).map .ints
  | .floats => (readFloat.read (trim field)).map .floats
  | _ => if h : field.all (fun b => b != 0) = true then some (.chars ⟨field, ne_zero_of_all h⟩) else none

/-- The items of a line, if it has enough fields and each says something. -/
def lineItems : List FieldMeta → List (List UInt8) → Option (List Item)
  | [], _ => some []
  | _ :: _, [] => none
  | f :: fs, x :: xs => (fieldItem readFloat f.type x).bind fun item => (lineItems fs xs).map (item :: ·)

variable (u : Unspecified) (tableMeta : TableMeta) (p : Placement (List UInt8))

/-- The columns of the record are the first fields of the line. -/
def RowOf (line record : List UInt8) : Prop :=
  ∃ items, lineItems readFloat tableMeta.fields (fieldsOf line) = some items ∧
    RoundTrip u tableMeta items record

/-- The rows are inserted in this order, from the `n`-th on. -/
inductive InOrder : Nat → Table (List UInt8) U → List (RecordId × Row (List UInt8)) → Table (List UInt8) U → Prop
  | nil (n : Nat) (t : Table (List UInt8) U) : InOrder n t [] t
  | cons {n : Nat} {t t₁ t' : Table (List UInt8) U} {rid : RecordId} {r : Row (List UInt8)}
      {rows : List (RecordId × Row (List UInt8))} :
      t.insertRecord (p.place n) r = .ok (.success, some rid, t₁) → InOrder (n + 1) t₁ rows t' →
      InOrder n t ((rid, r) :: rows) t'

/-- How many records the message says are loaded. -/
def StateString.loaded : StateString → Nat
  | total _ insertionCount => insertionCount
  | _ => 0

/-- What the statement should have done. -/
structure Loaded (content : List UInt8) (t : Table (List UInt8) U) (answer : RC × SqlResult)
    (t' : Table (List UInt8) U) : Prop where
  /-- It reports no error exactly if each line is a row now, in the order of the file. -/
  rows : (answer.1 = .success ∧ answer.2.returnCode = .success) ↔
    ∃ rows, InOrder p 0 t rows t' ∧ Added t.file t'.file rows ∧
      List.Forall₂ (fun line o => RowOf readFloat u tableMeta line o.2.data) (nonBlank content) rows
  count : ∃ rows, Added t.file t'.file rows ∧ rows.length = answer.2.stateString.loaded

/-! ## The condition for that -/

/-- The types that a text can be read as. -/
def Readable (f : FieldMeta) : Prop := f.type = .chars ∨ f.type = .ints ∨ f.type = .floats

/-- The line has enough fields, none of them empty, each can be read as its column's type, and the columns
    keep what is read. -/
def GoodLine (line record : List UInt8) : Prop :=
  isBlank line = false ∧ (∀ f ∈ tableMeta.fields, Readable f) ∧
  (∀ field ∈ (fieldsOf line).take tableMeta.fields.length, field ≠ []) ∧
  ∃ items, lineItems readFloat tableMeta.fields (fieldsOf line) = some items ∧ Good u tableMeta items ∧
    makeRecord u tableMeta (items.map Item.value) = .ok record

/-- Each line is good, and the table takes the records. -/
def Loadable (content : List UInt8) (t : Table (List UInt8) U) : Prop :=
  ∃ records, List.Forall₂ (GoodLine readFloat u tableMeta) (nonBlank content) records ∧
    ∃ rows t', InOrder p 0 t rows t' ∧ rows.map Prod.snd = records.map fun record => ⟨0, 0, record⟩

end Specification

/-! ## The pieces -/

/-- The empty pieces are lost. -/
theorem splitString_eq (s : List UInt8) : splitString s = (fieldsOf s).filter (· ≠ []) := by
  unfold fieldsOf List.splitOn
  fun_induction splitString s with
  | case1 s h hpos =>
    have hnone : ∀ b ∈ s, (b == 124) = false := fun b hb => List.findIdx?_eq_none_iff.mp h b hb
    have hne : s ≠ [] := List.ne_nil_of_length_pos hpos
    rw [List.splitOnP_eq_singleton hnone]
    simp [hne]
  | case2 s h hpos =>
    have hnil : s = [] := List.eq_nil_of_length_eq_zero (by omega)
    rw [hnil]
    rfl
  | case3 s cutAt h hpos ih =>
    -- a field and the bar behind it
    obtain ⟨hlt, hbar, hbefore⟩ := List.findIdx?_eq_some_iff_getElem.mp h
    have hs : s = s.take cutAt ++ s[cutAt] :: s.drop (cutAt + 1) := by simp
    have hfirst : ∀ b ∈ s.take cutAt, (b == 124) = false := by
      intro b hb
      obtain ⟨i, hi, rfl⟩ := List.mem_take_iff_getElem.mp hb
      have hi' : i < cutAt := by omega
      simpa using hbefore i hi'
    have hne : s.take cutAt ≠ [] := by
      rw [← List.length_pos_iff, List.length_take]
      omega
    have hsplit := @List.splitOnP_append_cons UInt8 (· == 124) (s.take cutAt) (s.drop (cutAt + 1)) s[cutAt] hbar
    conv => rhs; rw [hs]
    rw [hsplit, List.splitOnP_eq_singleton hfirst, List.filter_append, ← ih]
    simp [hne]
  | case4 s cutAt h hpos ih =>
    -- a bar in front, whose empty piece the code skips
    obtain ⟨hlt, hbar, -⟩ := List.findIdx?_eq_some_iff_getElem.mp h
    have hs : s = [] ++ s[cutAt] :: s.drop (cutAt + 1) := by
      have hzero : cutAt = 0 := by omega
      subst hzero
      exact (List.cons_getElem_drop_succ (h := hlt)).symm
    have hsplit := @List.splitOnP_append_cons UInt8 (· == 124) [] (s.drop (cutAt + 1)) s[cutAt] hbar
    conv => rhs; rw [hs]
    rw [hsplit, List.filter_append, ← ih]
    simp

/-- Where the first fields are not empty they stay where they are. -/
theorem take_filter {n : Nat} {xs : List (List UInt8)} (h : ∀ x ∈ xs.take n, x ≠ []) :
    (xs.filter (· ≠ [])).take n = xs.take n := by
  induction xs generalizing n with
  | nil => rfl
  | cons x xs ih =>
    cases n with
    | zero => rfl
    | succ n =>
      rw [List.take_succ_cons] at h
      obtain ⟨hx, hrest⟩ := List.forall_mem_cons.mp h
      have hkeep : (x :: xs).filter (· ≠ []) = x :: xs.filter (· ≠ []) := by simp [hx]
      rw [hkeep, List.take_succ_cons, List.take_succ_cons, ih hrest]

section Values

variable {readFloat : FloatReader} {fs : List FieldMeta} {xs : List (List UInt8)}

/-- Only as many pieces as there are columns are looked at. -/
theorem recordValues_take : recordValues readFloat fs (xs.take fs.length) = recordValues readFloat fs xs := by
  induction fs generalizing xs with
  | nil => cases xs <;> rfl
  | cons f fs ih =>
    cases xs with
    | nil => rfl
    | cons x xs =>
      rw [List.length_cons, List.take_succ_cons, recordValues, recordValues, ih]

/-- A line with items has enough fields. -/
theorem lineItems_length {items : List Item} (h : lineItems readFloat fs xs = some items) :
    fs.length ≤ xs.length ∧ items.length = fs.length := by
  induction fs generalizing xs items with
  | nil =>
    cases h
    exact ⟨Nat.zero_le _, rfl⟩
  | cons f fs ih =>
    cases xs with
    | nil => cases h
    | cons x xs =>
      rw [lineItems, Option.bind_eq_some_iff] at h
      obtain ⟨item, -, h⟩ := h
      obtain ⟨rest, hrest, rfl⟩ := Option.map_eq_some_iff.mp h
      obtain ⟨hle, hlen⟩ := ih hrest
      rw [List.length_cons, List.length_cons, List.length_cons, hlen]
      exact ⟨Nat.succ_le_succ hle, rfl⟩

theorem readInt_nil : readInt [] = none := rfl

/-- A text of blanks is trimmed to nothing. -/
theorem trim_of_blank {s : List UInt8} (h : s.all isSpace = true) : trim s = [] := by
  have hdrop : s.dropWhile isSpace = [] := List.dropWhile_eq_nil_iff.mpr (List.all_eq_true.mp h)
  unfold trim
  rw [hdrop]
  rfl

/-- The item of a column that can be read has the type of the column. -/
def ItemOf (f : FieldMeta) (x : Item) : Prop := Readable f ∧ x ≠ .null ∧ x.value.attrType = f.type

/-- A field that is not empty is read as the item that it says. -/
theorem read_field {f : FieldMeta} {x : List UInt8} {item : Item} (hf : Readable f)
    (h : fieldItem readFloat f.type x = some item) :
    ItemOf f item ∧ ∃ data, fieldText f x = .ok data ∧
      setValueFromStr readFloat f.type data = .ok item.value := by
  -- a number is not blank, so that `strip` finds it
  have hblank : ∀ {v : Int32} {read : List UInt8 → Option Int32}, read [] = none → read (trim x) = some v →
      strip x = .ok (trim x) := by
    intro v read hnil hv
    unfold strip
    rw [if_neg]
    intro hall
    rw [trim_of_blank hall, hnil] at hv
    cases hv
  unfold fieldText
  rcases hf with htype | htype | htype
  · rw [htype] at h ⊢
    by_cases hall : x.all (fun b => b != 0) = true
    · have hnul := ne_zero_of_all hall
      have hitem : fieldItem readFloat .chars x = some (.chars ⟨x, hnul⟩) := dif_pos hall
      rw [hitem] at h
      cases h
      refine ⟨⟨Or.inl htype, Item.noConfusion, htype.symm⟩, x, rfl, ?_⟩
      show Except.ok (Value.chars (x.takeWhile (· ≠ 0))) = _
      rw [takeWhile_text hnul]
      rfl
    · have hitem : fieldItem readFloat .chars x = none := dif_neg hall
      rw [hitem] at h
      cases h
  · rw [htype] at h ⊢
    obtain ⟨v, hv, rfl⟩ : ∃ v, readInt (trim x) = some v ∧ Item.ints v = item := Option.map_eq_some_iff.mp h
    refine ⟨⟨Or.inr (Or.inl htype), Item.noConfusion, htype.symm⟩, trim x, hblank readInt_nil hv, ?_⟩
    unfold setValueFromStr
    rw [hv]
    rfl
  · rw [htype] at h ⊢
    obtain ⟨v, hv, rfl⟩ : ∃ v, readFloat.read (trim x) = some v ∧ Item.floats v = item :=
      Option.map_eq_some_iff.mp h
    refine ⟨⟨Or.inr (Or.inr htype), Item.noConfusion, htype.symm⟩, trim x, hblank readFloat.read_nil hv, ?_⟩
    unfold setValueFromStr
    rw [hv]
    rfl

/-- A line whose values can be read gives its items. -/
theorem recordValues_eq {items : List Item} (hf : ∀ f ∈ fs, Readable f)
    (h : lineItems readFloat fs xs = some items) :
    List.Forall₂ ItemOf fs items ∧ recordValues readFloat fs xs = .ok (.ok (items.map Item.value)) := by
  induction fs generalizing xs items with
  | nil =>
    cases h
    exact ⟨.nil, by cases xs <;> rfl⟩
  | cons f fs ih =>
    cases xs with
    | nil => cases h
    | cons x xs =>
      obtain ⟨hread, hrest⟩ := List.forall_mem_cons.mp hf
      rw [lineItems, Option.bind_eq_some_iff] at h
      obtain ⟨item, hitem, h⟩ := h
      obtain ⟨items, hitems, rfl⟩ := Option.map_eq_some_iff.mp h
      obtain ⟨hof, data, htext, hvalue⟩ := read_field hread hitem
      obtain ⟨hofs, hvalues⟩ := ih hrest hitems
      refine ⟨.cons hof hofs, ?_⟩
      rw [recordValues, htext]
      dsimp only
      rw [hvalue]
      dsimp only
      rw [hvalues]
      rfl

/-- Only three types can be loaded. -/
theorem readable_of_setValue {type : Expr.Cast.AttrType} {data : List UInt8} {v : Value}
    (h : setValueFromStr readFloat type data = .ok v) : type = .chars ∨ type = .ints ∨ type = .floats := by
  cases type with
  | chars => exact Or.inl rfl
  | ints => exact Or.inr (Or.inl rfl)
  | floats => exact Or.inr (Or.inr rfl)
  | dates => cases h
  | vectors => cases h

/-- An error is never SUCCESS. -/
theorem setValueFromStr_error {type : Expr.Cast.AttrType} {data : List UInt8} {rc : RC}
    (h : setValueFromStr readFloat type data = .error rc) : rc ≠ .success := by
  rintro rfl
  unfold setValueFromStr at h
  cases type with
  | chars => cases h
  | dates => cases h
  | vectors => cases h
  | ints =>
    dsimp only at h
    split at h <;> cases h
  | floats =>
    dsimp only at h
    split at h <;> cases h

/-- The field in front: its text is found, and either it fails or the answer is that of the others with its value. -/
theorem recordValues_cons {f : FieldMeta} {x : List UInt8} {answer : Except RC (List Value)}
    (h : recordValues readFloat (f :: fs) (x :: xs) = .ok answer) : ∃ data,
      (∃ rc, setValueFromStr readFloat f.type data = .error rc ∧ answer = .error rc) ∨
      ∃ v rest, setValueFromStr readFloat f.type data = .ok v ∧ recordValues readFloat fs xs = .ok rest ∧
        answer = rest.map (v :: ·) := by
  rw [recordValues] at h
  cases htext : fieldText f x with
  | error fault =>
    rw [htext] at h
    cases h
  | ok data =>
    refine ⟨data, ?_⟩
    rw [htext] at h
    dsimp only at h
    cases hvalue : setValueFromStr readFloat f.type data with
    | error rc =>
      rw [hvalue] at h
      exact Or.inl ⟨rc, rfl, (Except.ok.inj h).symm⟩
    | ok v =>
      rw [hvalue] at h
      cases hrest : recordValues readFloat fs xs with
      | error fault =>
        rw [hrest] at h
        cases h
      | ok rest =>
        rw [hrest] at h
        exact Or.inr ⟨v, rest, rfl, rfl, (Except.ok.inj h).symm⟩

/-- Where all fields are read, the columns are of the types that can be. -/
theorem readable_of_recordValues {values : List Value} (hlen : fs.length ≤ xs.length)
    (h : recordValues readFloat fs xs = .ok (.ok values)) : ∀ f ∈ fs, Readable f := by
  induction fs generalizing xs values with
  | nil => exact List.forall_mem_nil _
  | cons f fs ih =>
    cases xs with
    | nil => cases hlen
    | cons x xs =>
      obtain ⟨data, ⟨rc, -, hrc⟩ | ⟨v, rest, hvalue, hrest, hanswer⟩⟩ := recordValues_cons h
      · cases hrc
      · have hf : Readable f := readable_of_setValue hvalue
        cases rest with
        | error rc => cases hanswer
        | ok values => exact List.forall_mem_cons.mpr ⟨hf, ih (Nat.le_of_succ_le_succ hlen) hrest⟩

/-- The code of a field that fails is an error. -/
theorem recordValues_error {rc : RC} (h : recordValues readFloat fs xs = .ok (.error rc)) : rc ≠ .success := by
  induction fs generalizing xs with
  | nil => cases xs <;> cases h
  | cons f fs ih =>
    cases xs with
    | nil => cases h
    | cons x xs =>
      obtain ⟨data, ⟨rc', hfails, hrc⟩ | ⟨v, rest, -, hrest, hanswer⟩⟩ := recordValues_cons h
      · rw [Except.error.inj hrc]
        exact setValueFromStr_error hfails
      · cases rest with
        | error rc' =>
          obtain rfl : rc = rc' := Except.error.inj hanswer
          exact ih hrest
        | ok values => cases hanswer

/-- A column that keeps its item keeps one that is not read as NULL, and that is no empty field. -/
theorem nonempty_of_notNull {f : FieldMeta} {x : List UInt8} {item : Item} (hf : Readable f)
    (h : fieldItem readFloat f.type x = some item) (hnull : item.value.isNull = false) : x ≠ [] := by
  rintro rfl
  rcases hf with htype | htype | htype
  · rw [htype] at h
    cases h
    cases hnull
  · rw [htype] at h
    cases h
  · rw [htype] at h
    have hnone : fieldItem readFloat .floats [] = none := by
      unfold fieldItem
      rw [show trim [] = [] from rfl, readFloat.read_nil]
      rfl
    rw [hnone] at h
    cases h

/-- A value that is not NULL is not an empty text. -/
theorem nonempty_of_items {items : List Item} (hf : ∀ f ∈ fs, Readable f)
    (h : lineItems readFloat fs xs = some items) (hnull : ∀ x ∈ items, x.value.isNull = false) :
    ∀ x ∈ xs.take fs.length, x ≠ [] := by
  induction fs generalizing xs items with
  | nil => exact List.forall_mem_nil _
  | cons f fs ih =>
    cases xs with
    | nil => exact List.forall_mem_nil _
    | cons x xs =>
      obtain ⟨hread, hrest⟩ := List.forall_mem_cons.mp hf
      rw [lineItems, Option.bind_eq_some_iff] at h
      obtain ⟨item, hitem, h⟩ := h
      obtain ⟨items, hitems, rfl⟩ := Option.map_eq_some_iff.mp h
      obtain ⟨hn, hns⟩ := List.forall_mem_cons.mp hnull
      rw [List.length_cons, List.take_succ_cons]
      exact List.forall_mem_cons.mpr ⟨nonempty_of_notNull hread hitem hn, ih hrest hitems hns⟩

end Values

/-! ## The record -/

section Records

variable {u : Unspecified} {tableMeta : TableMeta} {items : List Item} {record : List UInt8}

/-- A string that is resized is not read as NULL if it was not. -/
theorem resize_chars {data : List UInt8} (hnull : (Value.chars data).isNull = false) (len : Nat) :
    ∃ real, Expr.Cast.resize (.chars data) len = .ok real ∧ real.isNull = false := by
  unfold Expr.Cast.resize
  dsimp only
  by_cases hlong : data.length ≥ len
  · exact ⟨_, if_pos hlong, hnull⟩
  · rw [if_neg hlong, hnull, if_neg Bool.false_ne_true]
    refine ⟨_, rfl, ?_⟩
    cases data with
    | nil => cases hnull
    | cons b data =>
      have hb : b ≠ 0 := of_decide_eq_false hnull
      have hkeep : (b :: data).takeWhile (· ≠ 0) = b :: data.takeWhile (· ≠ 0) := by simp [hb]
      rw [hkeep]
      exact hnull

/-- An item of a column that can be read is resized, and stays what it is. -/
theorem resize_item {f : FieldMeta} {x : Item} (h : ItemOf f x) (hnull : x.value.isNull = false)
    (hpos : 0 < f.len) : ∃ real, Expr.Cast.convert u x f.type = .ok x.value ∧
      Expr.Cast.resize x.value f.len = .ok real ∧ real.isNull = false ∧ real.attrType = f.type ∧
      Expr.Cast.resize real f.len = .ok real := by
  obtain ⟨hread, hne, htype⟩ := h
  have hconvert : Expr.Cast.convert u x f.type = .ok x.value := if_neg (not_not.mpr htype.symm)
  cases x with
  | null => exact absurd rfl hne
  | vectors =>
    have hvectors : f.type = .vectors := htype.symm
    rcases hread with h | h | h
    · cases hvectors.symm.trans h
    · cases hvectors.symm.trans h
    · cases hvectors.symm.trans h
  | dates | ints | floats => exact ⟨_, hconvert, rfl, hnull, htype, rfl⟩
  | chars s =>
    obtain ⟨real, hreal, hrealnull⟩ := resize_chars hnull f.len
    have htext : ∀ data, Item.value (.chars s) = .chars data → ∀ b ∈ data, b ≠ 0 := by
      intro data hdata
      cases hdata
      exact s.property
    obtain ⟨hsame, hagain, -⟩ := resize_ok (u := u) hpos htext hreal
    exact ⟨real, hconvert, hreal, hrealnull, hsame.trans htype, hagain⟩

/-- INSERT would have taken the items, and made the same record of them. -/
theorem convertRow_items {fs : List FieldMeta} (h : List.Forall₂ ItemOf fs items)
    (hnull : ∀ x ∈ items, x.value.isNull = false) (hpos : ∀ f ∈ fs, 0 < f.len) :
    ∃ reals, convertRow u fs items = .ok reals ∧ checkRow fs reals = .ok () ∧ reals.length = items.length ∧
      ∀ data, setFields u fs reals data = setFields u fs (items.map Item.value) data := by
  induction h with
  | nil => exact ⟨[], rfl, rfl, rfl, fun _ => rfl⟩
  | @cons f x fs items hof _ ih =>
    obtain ⟨hn, hns⟩ := List.forall_mem_cons.mp hnull
    obtain ⟨hp, hps⟩ := List.forall_mem_cons.mp hpos
    obtain ⟨reals, hreals, hcheck, hlen, hset⟩ := ih hns hps
    obtain ⟨real, hconvert, hreal, hrealnull, hsame, hagain⟩ := @resize_item u f x hof hn hp
    refine ⟨real :: reals, ?_, ?_, congrArg Nat.succ hlen, fun data => ?_⟩
    · unfold convertRow
      simp only [hn, Bool.and_false, Bool.false_eq_true, if_false, bind, Except.bind, hconvert, hreal, hreals,
        pure, Except.pure]
    · unfold checkRow
      simp only [hrealnull, Bool.and_false, Bool.false_eq_true, if_false, hcheck, bind, Except.bind]
    · rw [List.map_cons]
      unfold setFields
      simp only [hsame, hof.2.2, ne_eq, not_true_eq_false, if_false, bind, Except.bind, hagain, hreal, hset]

/-- Each field has a length. -/
theorem length_pos_of_fields : ∀ f ∈ tableMeta.fields, 0 < f.len := by
  have hattrs : ∀ (as : List AttrInfo) (offset : Nat), ∀ f ∈ initFields offset as, 0 < f.len := by
    intro as
    induction as with
    | nil => exact fun _ => List.forall_mem_nil _
    | cons a as ih => exact fun offset => List.forall_mem_cons.mpr ⟨a.length_pos, ih _⟩
  exact hattrs tableMeta.attributes tableMeta.sysLen

/-- The columns hold the items exactly if they keep them. -/
theorem roundTrip_iff (h : List.Forall₂ ItemOf tableMeta.fields items)
    (hnull : ∀ x ∈ items, x.value.isNull = false)
    (hrecord : makeRecord u tableMeta (items.map Item.value) = .ok record) :
    RoundTrip u tableMeta items record ↔ Good u tableMeta items := by
  obtain ⟨reals, hreals, hcheck, hlen, hset⟩ := convertRow_items (u := u) h hnull length_pos_of_fields
  have haccepted : checkAndConvertRow u tableMeta items = .ok reals := by
    unfold checkAndConvertRow
    simp only [h.length_eq, ne_eq, not_true_eq_false, if_false, hreals, hcheck, bind, Except.bind, pure,
      Except.pure]
  refine roundTrip_iff_good haccepted ?_
  rw [← hrecord]
  unfold makeRecord
  rw [List.length_map, hlen, hset]

/-- What a column holds of an item is never NULL. -/
theorem notNull_of_converts {f : FieldMeta} {x : Item} {v : Value} (h : ItemOf f x)
    (hconv : Expr.Cast.Converts x f.type v.read) : x.value.isNull = false := by
  obtain ⟨hread, hne, htype⟩ := h
  rw [← htype] at hconv
  cases x with
  | null => exact absurd rfl hne
  | dates | ints | floats | chars | vectors =>
    obtain ⟨hnull, rfl⟩ := Expr.Cast.read_eq_some.mp hconv
    exact hnull

/-- A row that comes back as it was has no NULL. -/
theorem notNull_of_roundTrip (h : List.Forall₂ ItemOf tableMeta.fields items)
    (hround : RoundTrip u tableMeta items record) : ∀ x ∈ items, x.value.isNull = false := by
  intro x hx
  obtain ⟨i, hi, rfl⟩ := List.getElem_of_mem hx
  have hi' : i < tableMeta.fields.length := by rw [h.length_eq]; exact hi
  have hof := List.forall₂_iff_get.mp h
  exact notNull_of_converts (hof.2 i hi' hi)
    (hround (List.replicate tableMeta.sysLen 0) List.length_replicate i _ _ (List.getElem?_eq_getElem hi')
      (List.getElem?_eq_getElem hi))

/-- Nor has one that meets the condition. -/
theorem notNull_of_good (h : List.Forall₂ ItemOf tableMeta.fields items) (hgood : Good u tableMeta items) :
    ∀ x ∈ items, x.value.isNull = false := by
  intro x hx
  obtain ⟨i, hi, rfl⟩ := List.getElem_of_mem hx
  have hi' : i < tableMeta.fields.length := by rw [h.length_eq]; exact hi
  obtain ⟨hread, hne, htype⟩ := (List.forall₂_iff_get.mp h).2 i hi' hi
  have hfaithful := (hgood i _ _ (List.getElem?_eq_getElem hi') (List.getElem?_eq_getElem hi)).1
  rw [List.get_eq_getElem, List.get_eq_getElem] at htype
  rw [List.get_eq_getElem] at hne
  rw [← htype] at hfaithful
  cases hitem : items[i] with
  | null => exact absurd hitem hne
  | dates | ints | floats =>
    rw [hitem] at hfaithful
    exact decide_eq_false hfaithful
  | chars s =>
    rw [hitem] at hfaithful
    exact Expr.Cast.isNull_chars_of_ne hfaithful s.property
  | vectors => rfl

end Records

/-! ## The table -/

/-- Where a record goes does not depend on what is in it. -/
theorem insertRecord_place {p : Placement (List UInt8)} {t t' : Table (List UInt8) U} {n : Nat}
    {r : Row (List UInt8)} {rid : RecordId} {rc : Storage.RC}
    (h : t.insertRecord (p.place n) r = .ok (rc, some rid, t')) : p.place n t.file = .ok rid := by
  unfold Table.insertRecord at h
  cases hplace : p.place n t.file with
  | error rc' =>
    rw [hplace] at h
    cases h
  | ok rid' =>
    rw [hplace] at h
    obtain ⟨⟨rc', indexes⟩, -, h⟩ := Common.ok_of_bind h
    dsimp only at h
    split at h
    · obtain ⟨⟨rc2, indexes'⟩, -, h⟩ := Common.ok_of_bind h
      cases h
      rfl
    · cases h
      rfl

/-! ## One line -/

section Lines

variable {readFloat : FloatReader} {u : Unspecified} {tableMeta : TableMeta} {p : Placement (List UInt8)}
  {line record : List UInt8} {t t' : Table (List UInt8) U} {n : Nat}

/-- The record that is made of the pieces of a line. -/
def MadeOf (readFloat : FloatReader) (u : Unspecified) (tableMeta : TableMeta) (line record : List UInt8) : Prop :=
  tableMeta.fields.length ≤ (splitString line).length ∧ ∃ values,
    recordValues readFloat tableMeta.fields (splitString line) = .ok (.ok values) ∧
    makeRecord u tableMeta values = .ok record

/-- Where no field is empty the pieces are the fields. -/
theorem recordValues_splitString (h : ∀ x ∈ (fieldsOf line).take tableMeta.fields.length, x ≠ []) :
    recordValues readFloat tableMeta.fields (splitString line) =
      recordValues readFloat tableMeta.fields (fieldsOf line) := by
  rw [← recordValues_take, splitString_eq, take_filter h, recordValues_take]

/-- A line that meets the condition makes its record. -/
theorem GoodLine.madeOf (h : GoodLine readFloat u tableMeta line record) :
    MadeOf readFloat u tableMeta line record ∧ RowOf readFloat u tableMeta line record := by
  obtain ⟨-, hread, hne, items, hitems, hgood, hrecord⟩ := h
  obtain ⟨hof, hvalues⟩ := recordValues_eq hread hitems
  have hnull := notNull_of_good hof hgood
  have hlen : tableMeta.fields.length ≤ (splitString line).length := by
    have htake := congrArg List.length (take_filter hne)
    rw [← splitString_eq, List.length_take, List.length_take] at htake
    have := (lineItems_length hitems).1
    omega
  refine ⟨⟨hlen, _, ?_, hrecord⟩, items, hitems, (roundTrip_iff hof hnull hrecord).mpr hgood⟩
  rw [recordValues_splitString hne, hvalues]

/-- A record that is made of a line and holds its fields: the line is good. -/
theorem goodLine_of (hblank : isBlank line = false) (hmade : MadeOf readFloat u tableMeta line record)
    (hrow : RowOf readFloat u tableMeta line record) : GoodLine readFloat u tableMeta line record := by
  obtain ⟨hlen, values, hvalues, hrecord⟩ := hmade
  obtain ⟨items, hitems, hround⟩ := hrow
  have hread := readable_of_recordValues hlen hvalues
  obtain ⟨hof, hsame⟩ := recordValues_eq hread hitems
  have hnull := notNull_of_roundTrip hof hround
  have hne := nonempty_of_items hread hitems hnull
  rw [recordValues_splitString hne, hsame] at hvalues
  cases hvalues
  exact ⟨hblank, hread, hne, items, hitems, (roundTrip_iff hof hnull hrecord).mp hround, hrecord⟩

/-- The step for a line: the record is made and stored, or the code is an error and the file stays as it is. -/
theorem insertRecordFromFile_spec {rc : RC}
    (h : insertRecordFromFile readFloat u tableMeta p n (splitString line) t = .ok (rc, t')) :
    (rc = .success ∧ ∃ record rid, MadeOf readFloat u tableMeta line record ∧
      t.insertRecord (p.place n) ⟨0, 0, record⟩ = .ok (.success, some rid, t')) ∨
    (rc ≠ .success ∧ t'.file = t.file) := by
  unfold insertRecordFromFile at h
  by_cases hlen : (splitString line).length < tableMeta.fields.length
  · rw [if_pos hlen] at h
    cases h
    exact Or.inr ⟨RC.noConfusion, rfl⟩
  · rw [if_neg hlen] at h
    cases hvalues : recordValues readFloat tableMeta.fields (splitString line) with
    | error fault =>
      rw [hvalues] at h
      cases h
    | ok answer =>
      rw [hvalues] at h
      cases answer with
      | error rc' =>
        cases h
        exact Or.inr ⟨recordValues_error hvalues, rfl⟩
      | ok values =>
        dsimp only at h
        unfold insertValues at h
        cases hrecord : makeRecord u tableMeta values with
        | error rc' =>
          rw [hrecord] at h
          cases h
          exact Or.inr ⟨RC.noConfusion, rfl⟩
        | ok record =>
          rw [hrecord] at h
          dsimp only at h
          cases hinsert : t.insertRecord (p.place n) ⟨0, 0, record⟩ with
          | error fault =>
            rw [hinsert] at h
            cases h
          | ok answer =>
            obtain ⟨rcInsert, rid, t₁⟩ := answer
            rw [hinsert] at h
            cases h
            -- the table takes the record, or has taken it back
            cases Table.insertRecord_file hinsert with
            | stored hfree hfile =>
              exact Or.inl ⟨rfl, record, _, ⟨by omega, values, hvalues, hrecord⟩, hinsert⟩
            | rejected hrc hfile =>
              rw [if_neg hrc]
              exact Or.inr ⟨RC.noConfusion, hfile⟩

/-- A record that can be made of the line, and that the table takes. -/
theorem insertRecordFromFile_ok {rid : RecordId} (h : MadeOf readFloat u tableMeta line record)
    (hinsert : t.insertRecord (p.place n) ⟨0, 0, record⟩ = .ok (.success, some rid, t')) :
    insertRecordFromFile readFloat u tableMeta p n (splitString line) t = .ok (.success, t') := by
  obtain ⟨hlen, values, hvalues, hrecord⟩ := h
  unfold insertRecordFromFile insertValues
  rw [if_neg (by omega), hvalues]
  dsimp only
  rw [hrecord]
  dsimp only
  rw [hinsert]
  rfl

end Lines

/-! ## The run -/

section Runs

variable {readFloat : FloatReader} {u : Unspecified} {tableMeta : TableMeta} {p : Placement (List UInt8)}
  {t t' : Table (List UInt8) U} {n : Nat} {rows : List (RecordId × Row (List UInt8))}

/-- Rows that are inserted one by one are added. -/
theorem InOrder.added (h : InOrder p n t rows t') : Added t.file t'.file rows := by
  induction h with
  | nil n t => exact .refl _
  | cons hinsert _ ih =>
    cases Table.insertRecord_file hinsert with
    | stored hfree hfile => exact .cons hfree (hfile ▸ ih)
    | rejected hrc _ => exact absurd rfl hrc

/-- The end tells which rows were inserted, and in which order: the places do not depend on the rows. -/
theorem InOrder.unique {rows' : List (RecordId × Row (List UInt8))} (h : InOrder p n t rows t')
    (h' : InOrder p n t rows' t') : rows = rows' := by
  induction h generalizing rows' with
  | nil n t => exact (List.eq_nil_of_length_eq_zero (h'.added.length_eq (.refl _))).symm
  | @cons n t t₁ t' rid r rows hinsert hrest ih =>
    cases h' with
    | nil =>
      have hlen := (InOrder.cons hinsert hrest).added.length_eq (.refl _)
      cases hlen
    | @cons _ _ t₁' _ rid' r' rows' hinsert' hrest' =>
      have hplace := insertRecord_place hinsert
      have hplace' := insertRecord_place hinsert'
      obtain rfl : rid = rid' := Except.ok.inj (hplace.symm.trans hplace')
      have hstored := (InOrder.cons hinsert hrest).added.stored _ (List.mem_cons_self ..)
      have hstored' := (InOrder.cons hinsert' hrest').added.stored _ (List.mem_cons_self ..)
      obtain rfl : r = r' := Option.some.inj (hstored.symm.trans hstored')
      obtain rfl : t₁ = t₁' := by
        have heq := Except.ok.inj (hinsert.symm.trans hinsert')
        exact (Prod.mk.inj (Prod.mk.inj heq).2).2
      rw [ih hrest']

/-- The row of a line. -/
def StoredRow (readFloat : FloatReader) (u : Unspecified) (tableMeta : TableMeta) (line : List UInt8)
    (o : RecordId × Row (List UInt8)) : Prop :=
  MadeOf readFloat u tableMeta line o.2.data ∧ o.2 = ⟨0, 0, o.2.data⟩

/-- What the loop has done when it ends. -/
theorem loadLines_spec {lines : List (List UInt8)} {lineNum : Nat} {e : Ended U}
    (h : loadLines readFloat u tableMeta p lines lineNum n t = .ok e) :
    ∃ rows t₁, InOrder p n t rows t₁ ∧ e.table.file = t₁.file ∧
      ((e.rc = .success ∧ e.table = t₁ ∧
          List.Forall₂ (StoredRow readFloat u tableMeta) (lines.filter fun line => !isBlank line) rows) ∨
        (e.rc ≠ .success ∧ rows.length < (lines.filter fun line => !isBlank line).length)) := by
  induction lines generalizing lineNum n t with
  | nil =>
    cases h
    exact ⟨[], t, .nil n t, rfl, Or.inl ⟨rfl, rfl, .nil⟩⟩
  | cons line lines ih =>
    rw [loadLines] at h
    cases hblank : isBlank line with
    | true =>
      rw [hblank, if_pos rfl] at h
      rw [List.filter_cons_of_neg (by simp [hblank])]
      exact ih h
    | false =>
      rw [hblank, if_neg Bool.false_ne_true] at h
      rw [List.filter_cons_of_pos (by simp [hblank])]
      cases hline : insertRecordFromFile readFloat u tableMeta p n (splitString line) t with
      | error fault =>
        rw [hline] at h
        cases h
      | ok answer =>
        obtain ⟨rc, t₂⟩ := answer
        rw [hline] at h
        dsimp only at h
        rcases insertRecordFromFile_spec hline with ⟨rfl, record, rid, hmade, hinsert⟩ | ⟨hrc, hfile⟩
        · rw [if_pos rfl] at h
          obtain ⟨rows, t₁, horder, hfile, hend⟩ := ih h
          refine ⟨(rid, ⟨0, 0, record⟩) :: rows, t₁, .cons hinsert horder, hfile, ?_⟩
          rcases hend with ⟨hsuccess, htable, hrows⟩ | ⟨hfailed, hlen⟩
          · exact Or.inl ⟨hsuccess, htable, .cons ⟨hmade, rfl⟩ hrows⟩
          · exact Or.inr ⟨hfailed, Nat.succ_lt_succ hlen⟩
        · -- the first line that fails ends the run
          rw [if_neg hrc] at h
          cases h
          exact ⟨[], t, .nil n t, hfile, Or.inr ⟨hrc, Nat.succ_pos _⟩⟩

/-- If each line is good and the table takes the records, the loop runs to the end. -/
theorem loadLines_ok {lines : List (List UInt8)} {records : List (List UInt8)} {lineNum : Nat}
    (hgood : List.Forall₂ (MadeOf readFloat u tableMeta) (lines.filter fun line => !isBlank line) records)
    (horder : InOrder p n t rows t') (hrows : rows.map Prod.snd = records.map fun record => ⟨0, 0, record⟩) :
    ∃ total, loadLines readFloat u tableMeta p lines lineNum n t = .ok ⟨.success, total, n + rows.length, t'⟩ := by
  induction lines generalizing lineNum n t records rows with
  | nil =>
    have hnil := List.forall₂_nil_left_iff.mp hgood
    rw [hnil] at hrows
    have hrows' : rows = [] := List.map_eq_nil_iff.mp hrows
    subst hrows'
    cases horder
    exact ⟨lineNum, rfl⟩
  | cons line lines ih =>
    rw [loadLines]
    cases hblank : isBlank line with
    | true =>
      rw [List.filter_cons_of_neg (by simp [hblank])] at hgood
      rw [if_pos rfl]
      exact ih hgood horder hrows
    | false =>
      rw [List.filter_cons_of_pos (by simp [hblank])] at hgood
      obtain ⟨record, records, hline, hlines, rfl⟩ := List.forall₂_cons_left_iff.mp hgood
      cases horder with
      | nil => cases hrows
      | @cons _ _ t₁ _ rid r rows hinsert hrest =>
        rw [List.map_cons, List.map_cons] at hrows
        obtain ⟨hr, hrows⟩ := List.cons.inj hrows
        dsimp only at hr
        rw [hr] at hinsert
        obtain ⟨total, htotal⟩ : ∃ total, loadLines readFloat u tableMeta p lines (lineNum + 1) (n + 1) t₁ =
            .ok ⟨.success, total, n + 1 + rows.length, t'⟩ := ih hlines hrest hrows
        refine ⟨total, ?_⟩
        rw [if_neg Bool.false_ne_true, insertRecordFromFile_ok hline hinsert]
        dsimp only
        rw [if_pos rfl, htotal, List.length_cons, Nat.add_assoc, Nat.add_comm 1]

/-- Line by line. -/
theorem forall₂_goodLine {lines : List (List UInt8)} (hpassed : ∀ line ∈ lines, isBlank line = false)
    (hstored : List.Forall₂ (StoredRow readFloat u tableMeta) lines rows)
    (hrows : List.Forall₂ (fun line o => RowOf readFloat u tableMeta line o.2.data) lines rows) :
    List.Forall₂ (fun line o => GoodLine readFloat u tableMeta line o.2.data) lines rows := by
  induction hstored with
  | nil => exact .nil
  | cons hline _ ih =>
    obtain ⟨hblank, hpassed⟩ := List.forall_mem_cons.mp hpassed
    cases hrows with
    | cons hrow hrows => exact .cons (goodLine_of hblank hline.1 hrow) (ih hpassed hrows)

theorem map_snd_eq {lines : List (List UInt8)} (h : List.Forall₂ (StoredRow readFloat u tableMeta) lines rows) :
    rows.map Prod.snd = rows.map fun o => (⟨0, 0, o.2.data⟩ : Row (List UInt8)) := by
  induction h with
  | nil => rfl
  | cons hline _ ih => rw [List.map_cons, List.map_cons, ih, ← hline.2]

/-- The lines that `is_blank` passes over are not always blank. -/
theorem filter_isBlank (lines : List (List UInt8)) :
    (lines.filter fun line => !isBlank line).Sublist (lines.filter fun line => !line.all isSpace) := by
  refine List.monotone_filter_right lines fun line h => ?_
  rw [Bool.not_eq_true'] at h ⊢
  by_contra hall
  rw [Bool.not_eq_false, List.all_eq_true] at hall
  have hblank : isBlank line = true :=
    List.all_eq_true.mpr fun b hb => hall b ((List.takeWhile_prefix _).subset hb)
  rw [hblank] at h
  cases h

end Runs

/-- **LOAD DATA.**  The statement does what it should exactly if each line is good and the table takes all the
    records. -/
theorem load_data_iff (readFloat : FloatReader) (u : Unspecified) (tableMeta : TableMeta)
    (p : Placement (List UInt8)) (content : List UInt8) (t : Table (List UInt8) U) :
    (∃ answer t', execute readFloat u tableMeta p (some content) t = .ok (answer, t') ∧
      Loaded readFloat u tableMeta p content t answer t') ↔ Loadable readFloat u tableMeta p content t := by
  have hsub := filter_isBlank (linesOf content)
  constructor
  · rintro ⟨answer, t', hrun, hloaded⟩
    unfold execute loadData at hrun
    dsimp only at hrun
    cases hlines : loadLines readFloat u tableMeta p (linesOf content) 0 0 t with
    | error fault =>
      rw [hlines] at hrun
      cases hrun
    | ok e =>
      rw [hlines] at hrun
      cases hrun
      -- no error is reported, so that each line has to be a row
      obtain ⟨rows, horder, hadded, hrows⟩ := hloaded.rows.mp ⟨rfl, rfl⟩
      obtain ⟨rows', t₁, horder', hfile, hend⟩ := loadLines_spec hlines
      have hadded' := horder'.added
      rw [← hfile] at hadded'
      have hlen := hadded.length_eq hadded'
      have hcount : (nonBlank content).length = rows.length := hrows.length_eq
      have hle : ((linesOf content).filter fun line => !isBlank line).length ≤ (nonBlank content).length :=
        hsub.length_le
      rcases hend with ⟨-, htable, hstored⟩ | ⟨-, hlt⟩
      · rw [← htable] at horder'
        obtain rfl := horder.unique horder'
        have hsame : ((linesOf content).filter fun line => !isBlank line) = nonBlank content :=
          hsub.eq_of_length (by rw [hstored.length_eq]; exact hcount.symm)
        rw [hsame] at hstored
        have hpassed : ∀ line ∈ nonBlank content, isBlank line = false := by
          intro line hline
          rw [← hsame, List.mem_filter, Bool.not_eq_true'] at hline
          exact hline.2
        refine ⟨rows.map fun o => o.2.data, ?_, rows, _, horder, ?_⟩
        · rw [List.forall₂_map_right_iff]
          exact forall₂_goodLine hpassed hstored hrows
        · rw [List.map_map]
          exact map_snd_eq hstored
      · omega
  · rintro ⟨records, hgood, rows, t', horder, hrows⟩
    have hsame : ((linesOf content).filter fun line => !isBlank line) = nonBlank content := by
      refine List.filter_congr fun line hline => ?_
      by_cases hall : line.all isSpace = true
      · have hblank : isBlank line = true :=
          List.all_eq_true.mpr fun b hb => List.all_eq_true.mp hall b ((List.takeWhile_prefix _).subset hb)
        rw [hblank, hall]
      · have hmem : line ∈ nonBlank content := List.mem_filter.mpr ⟨hline, by simpa using hall⟩
        obtain ⟨record, -, hline'⟩ := Common.exists_of_forall₂ hgood.flip line hmem
        rw [hline'.1, Bool.eq_false_iff.mpr hall]
    have hmade : List.Forall₂ (MadeOf readFloat u tableMeta)
        ((linesOf content).filter fun line => !isBlank line) records := by
      rw [hsame]
      exact hgood.imp fun _ _ h => h.madeOf.1
    obtain ⟨total, hrun⟩ := @loadLines_ok U readFloat u tableMeta p t t' 0 rows _ records 0 hmade horder hrows
    rw [Nat.zero_add] at hrun
    have hdata : rows.map (fun o => o.2.data) = records := by
      have := congrArg (List.map Row.data) hrows
      rw [List.map_map, List.map_map] at this
      rw [show rows.map (fun o => o.2.data) = rows.map (Row.data ∘ Prod.snd) from rfl, this]
      exact List.map_id records
    refine ⟨(.success, ⟨.success, .total total rows.length⟩), t', ?_, ⟨?_, rows, horder.added, rfl⟩⟩
    · unfold execute loadData
      dsimp only
      rw [hrun]
      rfl
    · refine iff_of_true ⟨rfl, rfl⟩ ⟨rows, horder, horder.added, ?_⟩
      have hrow := hgood.imp fun _ _ h => h.madeOf.2
      rw [← hdata, List.forall₂_map_right_iff] at hrow
      exact hrow

/-- A table with two columns CHAR(1). -/
def twoChars : TableMeta := ⟨0, [⟨.chars, 1, true, Nat.one_pos⟩, ⟨.chars, 1, true, Nat.one_pos⟩]⟩

def noFloats : FloatReader := ⟨fun _ => none, rfl⟩

def nothingLeft : Unspecified := ⟨fun _ => 0, fun _ => 0, fun _ _ => 0, fun _ => 0⟩

/-- Of the line `a` no record is made, and no error is reported; the line `|b|c` is read as `b` and `c`. -/
theorem load_data_loses : (¬ ∃ answer t', execute noFloats nothingLeft twoChars firstSlots (some [97])
      (⟨.empty, []⟩ : Table (List UInt8) Unit) = .ok (answer, t') ∧
      Loaded noFloats nothingLeft twoChars firstSlots [97] ⟨.empty, []⟩ answer t') ∧
    recordValues noFloats twoChars.fields (splitString [124, 98, 124, 99]) = .ok (.ok [.chars [98], .chars [99]]) := by
  constructor
  · rintro ⟨answer, t', hrun, hloaded⟩
    have hrun' : execute noFloats nothingLeft twoChars firstSlots (some [97])
        (⟨.empty, []⟩ : Table (List UInt8) Unit) =
          .ok ((.success, ⟨.success, .insertFailed 1 .schemaFieldMissing⟩), ⟨.empty, []⟩) := by
      have hpieces : splitString [97] = [[97]] := splitString_eq [97]
      have hline : insertRecordFromFile noFloats nothingLeft twoChars firstSlots 0 (splitString [97])
          (⟨.empty, []⟩ : Table (List UInt8) Unit) = .ok (.schemaFieldMissing, ⟨.empty, []⟩) := by
        rw [hpieces]
        rfl
      have hlines : loadLines noFloats nothingLeft twoChars firstSlots [[97]] 0 0
          (⟨.empty, []⟩ : Table (List UInt8) Unit) = .ok ⟨.schemaFieldMissing, 1, 0, ⟨.empty, []⟩⟩ := by
        rw [loadLines, if_neg (by decide), hline]
        rfl
      show Except.map _ (Except.map _ (loadLines noFloats nothingLeft twoChars firstSlots [[97]] 0 0 _)) = _
      rw [hlines]
      rfl
    rw [hrun'] at hrun
    cases hrun
    obtain ⟨rows, -, -, hrows⟩ := hloaded.rows.mp ⟨rfl, rfl⟩
    obtain ⟨o, -, ⟨items, hitems, -⟩, -, -⟩ := List.forall₂_cons_left_iff.mp hrows
    cases hitems
  · rw [show splitString [124, 98, 124, 99] = [[98], [99]] from splitString_eq [124, 98, 124, 99]]
    rfl

end Miniob.LoadData
