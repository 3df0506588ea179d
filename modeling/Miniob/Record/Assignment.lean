/-
  The new values of an UPDATE (`convert_expression_to_values` and `open` of `UpdatePhysicalOperator` in
  src/observer/sql/operator/update_physical_operator.cpp).

  1. **Converting** — an expression gives a value, which is cast to the type of its column.
  2. **Copying** — each value is copied to the offset of its column.  The columns of a table lie one behind
     the other, so a column is written by its own values only, and the last one stays.
-/
import Miniob.Common.Run
import Miniob.Record.RowStorage
import Miniob.Storage.Types

namespace Miniob.RowStorage

open Miniob.Common Miniob.Index Miniob.Expr.Cast

/-! ## Records and assignments -/

/-- The bytes of a record, as many as the table says. -/
def Record (m : TableMeta) : Type := {data : List UInt8 // data.length = m.recordSize}

/-- A column of the `SET` clause and the bytes at `values_[i].data()`. -/
structure Assignment (m : TableMeta) where
  column : FieldMeta
  bytes : List UInt8
  mem : column ∈ m.fields
  length_bytes : bytes.length = column.len

/-! ## Converting -/

/-- What the expression behind `=` gives. -/
inductive NewValue where
  | value (v : Value)
  /-- A subquery: `open`, the first `next` with its value, and the second `next`. -/
  | subquery (rcOpen : Storage.RC) (first : Storage.RC × Value) (second : Storage.RC)

/-- A subquery without a row is NULL, and one with two rows is refused. -/
def NewValue.get : NewValue → Except Storage.RC Value
  | value v => .ok v
  | subquery rcOpen first second =>
    if rcOpen ≠ .success then .error rcOpen
    else if first.1 = .recordEof then .ok Item.null.value
    else if first.1 ≠ .success then .error first.1
    else if second ≠ .recordEof then .error (if second = .success then .invalidArgument else second)
    else .ok first.2

/-- The codes of the conversions. -/
def storageRC : Expr.Cast.RC → Storage.RC
  | .invalidArgument => .invalidArgument
  | .variableNotValid => .variableNotValid
  | .unimplemented => .unimplemented
  | .unsupported => .unsupported
  | .schemaFieldMissing => .schemaFieldMissing

/-- The `f.len` bytes at `data()`. -/
def dataBytes (u : Unspecified) (v : Value) (f : FieldMeta) : List UInt8 :=
  match v with
  | .chars data =>
    if v.isNull then List.replicate f.len 0
    else (data ++ (List.range f.len).map (u.behindValue f.offset)).take f.len
  | .dates v | .ints v | .floats v =>
    (int32Bytes v ++ (List.range f.len).map (u.behindValue f.offset)).take f.len
  | .vectors units => (int32sBytes units ++ (List.range f.len).map (u.behindValue f.offset)).take f.len

/-- A value fills its field. -/
theorem length_dataBytes (u : Unspecified) (v : Value) (f : FieldMeta) : (dataBytes u v f).length = f.len := by
  unfold dataBytes
  split
  · split
    · exact List.length_replicate
    · simp
  · simp
  · simp
  · simp
  · simp

/-- One turn of the loop. -/
def convertExpression (u : Unspecified) (f : FieldMeta) (e : NewValue) : Except Storage.RC Value := do
  let tmp ← e.get
  let value ← (castTo u tmp f.type).mapError storageRC
  let value ← (resize value f.len).mapError storageRC
  if !f.nullable && value.isNull then throw .variableNotValid
  return value

/-- `convert_expression_to_values`. -/
def convertExpressionToValues (u : Unspecified) {m : TableMeta} :
    List ({f : FieldMeta // f ∈ m.fields} × NewValue) → Except Storage.RC (List (Assignment m))
  | [] => return []
  | (f, e) :: rest => do
    let value ← convertExpression u f.val e
    let values ← convertExpressionToValues u rest
    return ⟨f.val, dataBytes u value f.val, f.property, length_dataBytes u value f.val⟩ :: values

/-- A value that cannot be had has a code that says so. -/
theorem NewValue.get_error {e : NewValue} {rc : Storage.RC} (h : e.get = .error rc) : rc ≠ .success := by
  cases e with
  | value v => cases h
  | subquery rcOpen first second =>
    rw [NewValue.get] at h
    split at h
    · cases h
      assumption
    · split at h
      · cases h
      · split at h
        · cases h
          assumption
        · split at h
          · cases h
            split
            · simp
            · assumption
          · cases h

theorem mapError_storageRC {α : Type} {x : Except Expr.Cast.RC α} {rc : Storage.RC}
    (h : x.mapError storageRC = .error rc) : rc ≠ .success := by
  cases x with
  | ok _ => cases h
  | error rc' =>
    cases h
    cases rc' <;> simp [storageRC]

/-- So has one that cannot be converted. -/
theorem convertExpression_error {u : Unspecified} {f : FieldMeta} {e : NewValue} {rc : Storage.RC}
    (h : convertExpression u f e = .error rc) : rc ≠ .success := by
  unfold convertExpression at h
  rcases error_of_bind h with h | ⟨tmp, -, h⟩
  · exact e.get_error h
  rcases error_of_bind h with h | ⟨value, -, h⟩
  · exact mapError_storageRC h
  rcases error_of_bind h with h | ⟨value', -, h⟩
  · exact mapError_storageRC h
  split at h
  · cases h
    simp
  · cases h

/-- And the list of them. -/
theorem convertExpressionToValues_error {u : Unspecified} {m : TableMeta}
    {clauses : List ({f : FieldMeta // f ∈ m.fields} × NewValue)} {rc : Storage.RC}
    (h : convertExpressionToValues u clauses = .error rc) : rc ≠ .success := by
  induction clauses with
  | nil => cases h
  | cons c clauses ih =>
    rw [convertExpressionToValues] at h
    rcases error_of_bind h with h | ⟨value, -, h⟩
    · exact convertExpression_error h
    rcases error_of_bind h with h | ⟨values, -, h⟩
    · exact ih h
    · cases h

/-! ## Columns -/

/-- The bytes of a column. -/
def columnOf (data : List UInt8) (f : FieldMeta) : List UInt8 := (data.drop f.offset).take f.len

/-! ## The columns of a table -/

section

variable {m : TableMeta} {f g : FieldMeta}

/-- A field lies inside the record. -/
theorem initFields_mem {as : List AttrInfo} {offset : Nat} (h : f ∈ initFields offset as) :
    offset ≤ f.offset ∧ 0 < f.len ∧ f.offset + f.len ≤ offset + (as.map AttrInfo.length).sum := by
  induction as generalizing offset with
  | nil => cases h
  | cons a as ih =>
    rw [List.map_cons, List.sum_cons]
    rcases List.mem_cons.mp h with rfl | h
    · have := a.length_pos
      dsimp only
      omega
    · obtain ⟨hle, hpos, hlt⟩ := ih h
      omega

/-- Two columns lie apart. -/
theorem initFields_apart {as : List AttrInfo} {offset : Nat} (hf : f ∈ initFields offset as)
    (hg : g ∈ initFields offset as) : f = g ∨ f.offset + f.len ≤ g.offset ∨ g.offset + g.len ≤ f.offset := by
  induction as generalizing offset with
  | nil => cases hf
  | cons a as ih =>
    rcases List.mem_cons.mp hf with rfl | hf
    · rcases List.mem_cons.mp hg with rfl | hg
      · exact Or.inl rfl
      · exact Or.inr (Or.inl (initFields_mem hg).1)
    · rcases List.mem_cons.mp hg with rfl | hg
      · exact Or.inr (Or.inr (initFields_mem hf).1)
      · exact ih hf hg

theorem fields_le (hf : f ∈ m.fields) : f.offset + f.len ≤ m.recordSize := (initFields_mem hf).2.2

/-- A column has its own offset. -/
theorem fields_inj (hf : f ∈ m.fields) (hg : g ∈ m.fields) (h : f.offset = g.offset) : f = g := by
  have hfpos := (initFields_mem hf).2.1
  have hgpos := (initFields_mem hg).2.1
  rcases initFields_apart hf hg with heq | hlt | hlt
  · exact heq
  · omega
  · omega

/-! ## Copying -/

theorem length_copyTo {data bytes : List UInt8} {offset : Nat} (h : offset + bytes.length ≤ data.length) :
    (copyTo data offset bytes).length = data.length := by
  unfold copyTo
  simp only [List.length_append, List.length_take, List.length_drop]
  omega

theorem columnOf_copyTo_self {data : List UInt8} {bytes : List UInt8} (h : f.offset ≤ data.length)
    (hlen : bytes.length = f.len) : columnOf (copyTo data f.offset bytes) f = bytes := by
  unfold columnOf copyTo
  rw [List.append_assoc, List.drop_left' (by rw [List.length_take]; omega), List.take_left' hlen]

/-- Bytes that are copied next to a column leave it. -/
theorem columnOf_copyTo_apart {data bytes : List UInt8} {offset : Nat}
    (h : offset + bytes.length ≤ data.length)
    (hapart : f.offset + f.len ≤ offset ∨ offset + bytes.length ≤ f.offset) :
    columnOf (copyTo data offset bytes) f = columnOf data f := by
  unfold columnOf
  apply List.ext_getElem?
  intro k
  rw [List.getElem?_take, List.getElem?_take, List.getElem?_drop, List.getElem?_drop]
  split
  · rename_i hk
    unfold copyTo
    rcases hapart with hlt | hlt
    · rw [List.append_assoc, List.getElem?_append_left (by rw [List.length_take]; omega),
        List.getElem?_take, if_pos (by omega)]
    · rw [List.getElem?_append_right (by rw [List.length_append, List.length_take]; omega),
        List.length_append, List.length_take, List.getElem?_drop]
      congr 1
      omega
  · rfl

end

/-! ## The loop -/

variable {m : TableMeta}

/-- One `memcpy` of the loop over `fields_meta_`. -/
def assignOne (record : Record m) (a : Assignment m) : Record m :=
  ⟨copyTo record.val a.column.offset a.bytes, by
    rw [length_copyTo, record.property]
    rw [a.length_bytes, record.property]
    exact fields_le a.mem⟩

/-- The loop over `fields_meta_`. -/
def assign (as : List (Assignment m)) (record : Record m) : Record m := as.foldl assignOne record

/-- The columns of the `SET` clause have the values they are given, the last one if there are two, and the
    other columns are as they were. -/
def ExactlyAssigned (as : List (Assignment m)) (old new : Record m) : Prop :=
  ∀ f ∈ m.fields, columnOf new.val f =
    match as.reverse.find? fun a => a.column.offset = f.offset with
    | some a => a.bytes
    | none => columnOf old.val f

/-- An assignment writes one column. -/
theorem columnOf_assignOne (record : Record m) (a : Assignment m) {f : FieldMeta} (hf : f ∈ m.fields) :
    columnOf (assignOne record a).val f =
      if a.column.offset = f.offset then a.bytes else columnOf record.val f := by
  have hle := fields_le a.mem
  have hlen := a.length_bytes
  have hsize := record.property
  split
  · rename_i heq
    obtain rfl := fields_inj a.mem hf heq
    exact columnOf_copyTo_self (by omega) hlen
  · rename_i hne
    refine columnOf_copyTo_apart (by omega) ?_
    rcases initFields_apart a.mem hf with rfl | hlt | hlt
    · exact absurd rfl hne
    · omega
    · omega

/-- **The loop.** -/
theorem exactlyAssigned_assign (as : List (Assignment m)) (record : Record m) :
    ExactlyAssigned as record (assign as record) := by
  intro f hf
  unfold assign
  induction as generalizing record with
  | nil => rfl
  | cons a as ih =>
    rw [List.foldl_cons, ih, List.reverse_cons, List.find?_append]
    cases as.reverse.find? fun a => a.column.offset = f.offset with
    | some a' => rfl
    | none =>
      rw [Option.none_or, List.find?_cons, columnOf_assignOne record a hf]
      by_cases heq : a.column.offset = f.offset
      · simp [heq]
      · simp [heq]

/-! ## Once and for all rows -/

/-- Each byte of the new record is given, or it is that of the old one. -/
def Overwrites (f : Record m → Record m) : Prop :=
  ∀ k : Nat, (∃ b, ∀ record, (f record).val[k]? = b) ∨ ∀ record, (f record).val[k]? = record.val[k]?

/-- What it writes does not depend on what was there. -/
theorem overwrites_assignOne (a : Assignment m) : Overwrites fun record => assignOne record a := by
  intro k
  have hle := fields_le a.mem
  have hbyte : ∀ record : Record m, (assignOne record a).val[k]? =
      if k < a.column.offset then record.val[k]?
      else if k < a.column.offset + a.bytes.length then a.bytes[k - a.column.offset]? else record.val[k]? := by
    intro record
    have hsize := record.property
    have hlen := a.length_bytes
    show (copyTo record.val a.column.offset a.bytes)[k]? = _
    unfold copyTo
    rw [List.append_assoc, List.getElem?_append, List.length_take, Nat.min_eq_left (by omega)]
    split
    · rw [List.getElem?_take_of_lt (by assumption)]
    · rw [List.getElem?_append]
      by_cases hk : k < a.column.offset + a.bytes.length
      · rw [if_pos (by omega), if_pos hk]
      · rw [if_neg (by omega), if_neg hk, List.getElem?_drop]
        congr 1
        omega
  by_cases hinside : ¬ k < a.column.offset ∧ k < a.column.offset + a.bytes.length
  · exact Or.inl ⟨_, fun record => (hbyte record).trans (by rw [if_neg hinside.1, if_pos hinside.2])⟩
  · refine Or.inr fun record => (hbyte record).trans ?_
    split
    · rfl
    · rename_i hk
      exact if_neg fun hlt => hinside ⟨hk, hlt⟩

/-- One assignment after the other. -/
theorem Overwrites.comp {f g : Record m → Record m} (hg : Overwrites g) (hf : Overwrites f) :
    Overwrites fun record => g (f record) := by
  intro k
  rcases hg k with ⟨b, hb⟩ | hkeep
  · exact Or.inl ⟨b, fun record => hb (f record)⟩
  · rcases hf k with ⟨b, hb⟩ | hkeep'
    · exact Or.inl ⟨b, fun record => (hkeep _).trans (hb record)⟩
    · exact Or.inr fun record => (hkeep _).trans (hkeep' record)

theorem overwrites_assign (as : List (Assignment m)) : Overwrites (assign as) := by
  induction as with
  | nil => exact fun _ => Or.inr fun _ => rfl
  | cons a as ih => exact ih.comp (overwrites_assignOne a)

/-- The values are the same for every record, so copying them again changes nothing. -/
theorem assign_assign (as : List (Assignment m)) (record : Record m) :
    assign as (assign as record) = assign as record := by
  refine Subtype.ext (List.ext_getElem? fun k => ?_)
  rcases overwrites_assign as k with ⟨b, hb⟩ | hkeep
  · rw [hb, hb]
  · exact hkeep (assign as record)

end Miniob.RowStorage
