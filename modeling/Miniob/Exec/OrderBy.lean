/-
  ORDER BY (`order_by_physical_operator.cpp`).

  1. `openOperator` reads all rows of the child and sorts their numbers; the columns of the keys are looked up
     by name in the specifications of the first row.  A key that is not found there is taken for a function, and
     refused if it is none: so it goes with the only table of a FROM list if that has an alias, which the names of
     its columns have and the key has not (`aliased_key_refused`).
  2. On the values of a column the comparison of a key is a total preorder with NULL first
     (`keyResult_eq`), though `Value::compare` of two NULLs is not; so `cmp` is a strict weak order, and
     `std::sort`, which is any algorithm that sorts by such an order, gives a sorted permutation.
  3. `close` leaves the fields as they are in a new object, whatever has happened before (`Fresh`), and from
     there an open gives the rows that the child gives now.

  Left out: the values of types other than INT, DATE and CHARS, and how values of two types compare; these are
  parameters.  NULL is what `Value::is_null` says.
-/
import Miniob.Exec.Operator
import Miniob.Expr.Condition
import Mathlib.Data.List.Sort
import Mathlib.Data.List.GetD

namespace Miniob.Exec

open Miniob.Common Miniob.Expr Miniob.Index
open Miniob.Storage (RC)

/-! ## Names and values -/

structure TupleCellSpec where
  tableName : String
  fieldName : String
  aliasName : String
  deriving DecidableEq, Inhabited

/-- The constructor from two names and an alias. -/
def TupleCellSpec.make (tableName fieldName aliasName : String) : TupleCellSpec where
  tableName := tableName
  fieldName := fieldName
  aliasName :=
    if aliasName ≠ "" ∧ fieldName ≠ aliasName ∧ tableName ≠ aliasName then aliasName
    else if tableName = "" then fieldName
    else tableName ++ "." ++ fieldName

/-- A `Value`; `O` are the values of the other types. -/
inductive Value (O : Type) where
  | undefined
  | operand (t : OperandType) (a : Item t)
  | other (v : O)

/-- What the values of the other types are in comparisons. -/
structure Others (O : Type) where
  isNull : O → Bool
  /-- `Value::compare` where the types differ, or are others. -/
  compare : Value O → Value O → Int

variable {O X S : Type}

namespace Value

variable (others : Others O)

def isNull : Value O → Bool
  | undefined => false
  | operand _ a => a.cell.isNull
  | other v => others.isNull v

def compare (left right : Value O) : Int :=
  match left, right with
  | operand t a, operand t' b =>
    if h : t = t' then a.cell.compare (h ▸ b).cell else others.compare (operand t a) (operand t' b)
  | left, right => others.compare left right

end Value

/-! ## The rows -/

/-- `ShellTuple`. -/
def shellTuple (specs : List TupleCellSpec) (cells : List (Value O)) : Tuple TupleCellSpec (Value O) where
  cellNum := cells.length
  cellAt index :=
    if index < 0 ∨ index ≥ cells.length then .error .notfound
    else .ok (cells.getD index.toNat .undefined)
  specAt index :=
    if index < 0 ∨ index ≥ cells.length then .error .notfound
    else .ok (specs.getD index.toNat default)
  findCell spec :=
    match specs.findIdx? (· = spec) with
    | some i => .ok (cells.getD i .undefined)
    | none => .error .notfound

/-- The loop over `cell_at`; what it returns is not looked at. -/
def readCells (t : Tuple TupleCellSpec (Value O)) : List (Value O) :=
  t.cells.map fun answer => answer.toOption.getD .undefined

/-- The loop over `spec_at`. -/
def readSpecs (t : Tuple TupleCellSpec (Value O)) (tupleCells : List TupleCellSpec) : List TupleCellSpec :=
  (List.range t.cellNum).map fun i : Nat => (t.specAt i).toOption.getD (tupleCells.getD i default)

/-! ## The keys -/

inductive OrderByType where
  | asc
  | desc
  deriving DecidableEq

/-- An element of `field_expressions_` with its element of `order_by_type_`. -/
structure OrderKey (O : Type) where
  tableName : String
  fieldName : String
  aliasName : String
  /-- Its type is `VECTOR_FUNCTION`. -/
  isVectorFunction : Bool
  getValue : Tuple TupleCellSpec (Value O) → Value O
  type : OrderByType

namespace OrderKey

def spec (k : OrderKey O) : TupleCellSpec := .make k.tableName k.fieldName k.aliasName

/-- The loop over the specifications. -/
def position (specs : List TupleCellSpec) (k : OrderKey O) : Option Nat := specs.findIdx? (· = k.spec)

end OrderKey

/-- `field_index`, with nothing for -1; there is none if a key is neither a column nor a vector function. -/
def fieldIndex (specs : List TupleCellSpec) : List (OrderKey O) → Option (List (OrderKey O × Option Nat))
  | [] => some []
  | k :: keys =>
    match k.position specs with
    | some i => (fieldIndex specs keys).map ((k, some i) :: ·)
    | none => if k.isVectorFunction then (fieldIndex specs keys).map ((k, none) :: ·) else none

section Comparison

variable (others : Others O) (specs : List TupleCellSpec)

/-- The value of a key in a row. -/
def keyValue (k : OrderKey O × Option Nat) (row : List (Value O)) : Value O :=
  match k.2 with
  | none => k.1.getValue (shellTuple specs row)
  | some i => row.getD i .undefined

/-- `result`. -/
def keyResult (left right : Value O) : Int :=
  let result := left.compare others right
  if left.isNull others && right.isNull others then 0 else result

/-- The loop of `cmp` over the keys. -/
def compareRows : List (OrderKey O × Option Nat) → List (Value O) → List (Value O) → Bool
  | [], _, _ => false
  | k :: keys, left, right =>
    let result := keyResult others (keyValue specs k left) (keyValue specs k right)
    if result = 0 then compareRows keys left right
    else if k.1.type = .asc then decide (result < 0)
    else decide (result > 0)

/-- `cmp`, on the numbers of rows. -/
def cmp (index : List (OrderKey O × Option Nat)) (tuples : List (List (Value O))) (lhs rhs : Nat) : Bool :=
  compareRows others specs index (tuples.getD lhs []) (tuples.getD rhs [])

end Comparison

/-- `std::sort`: an algorithm that sorts by any strict weak order of the elements. -/
structure StdSort where
  sort : (Nat → Nat → Bool) → List Nat → List Nat
  perm : ∀ lt l, StrictWeak lt {a | a ∈ l} → (sort lt l).Perm l
  sorted : ∀ lt l, StrictWeak lt {a | a ∈ l} → (sort lt l).Pairwise fun a b => lt b a = false

/-- Where `b` is in the list, nothing that comes before it is above it. -/
def notAbove (lt : Nat → Nat → Bool) (l : List Nat) (a b : Nat) : Bool :=
  if b ∈ l then decide (a ∈ l) && !lt b a else true

/-- There is such an algorithm. -/
def mergeSorting : StdSort where
  sort lt l := l.mergeSort (notAbove lt l)
  perm lt l _ := List.mergeSort_perm l _
  sorted lt l h := by
    have htrans : ∀ a b c, notAbove lt l a b = true → notAbove lt l b c = true → notAbove lt l a c = true := by
      intro a b c hab hbc
      unfold notAbove at hab hbc ⊢
      by_cases hc : c ∈ l
      · rw [if_pos hc, Bool.and_eq_true, decide_eq_true_eq, Bool.not_eq_true'] at hbc
        obtain ⟨hb, hcb⟩ := hbc
        rw [if_pos hb, Bool.and_eq_true, decide_eq_true_eq, Bool.not_eq_true'] at hab
        obtain ⟨ha, hba⟩ := hab
        rw [if_pos hc, Bool.and_eq_true, decide_eq_true_eq, Bool.not_eq_true']
        refine ⟨ha, ?_⟩
        -- a step down from c to a would go past b
        by_contra hca
        rw [Bool.not_eq_false] at hca
        have hab' : lt a b = false := by
          by_contra hab'
          rw [Bool.not_eq_false] at hab'
          rw [h.trans c hc a ha b hb hca hab'] at hcb
          cases hcb
        have hbc' : lt b c = false := by
          by_contra hbc'
          rw [Bool.not_eq_false] at hbc'
          rw [h.trans b hb c hc a ha hbc' hca] at hba
          cases hba
        rw [(h.equiv_trans a ha b hb c hc hab' hba hbc' hcb).2] at hca
        cases hca
      · rw [if_neg hc]
    have htotal : ∀ a b, (notAbove lt l a b || notAbove lt l b a) = true := by
      intro a b
      unfold notAbove
      by_cases ha : a ∈ l
      · by_cases hb : b ∈ l
        · by_cases hlt : lt b a = true
          · have hback : lt a b = false := by
              by_contra hback
              rw [Bool.not_eq_false] at hback
              have hself := h.trans a ha b hb a ha hback hlt
              rw [h.irrefl a ha] at hself
              cases hself
            simp [ha, hb, hback]
          · simp [ha, hb, hlt]
        · simp [hb]
      · simp [ha]
    refine (List.pairwise_mergeSort htrans htotal l).imp_of_mem ?_
    intro a b _ hb hab
    unfold notAbove at hab
    rw [if_pos (List.mem_mergeSort.mp hb), Bool.and_eq_true, Bool.not_eq_true'] at hab
    exact hab.2

/-! ## The operator -/

/-- The fields of `OrderByPhysicalOperator`. -/
structure OrderBy (O S : Type) where
  child : S
  tuples : List (List (Value O))
  tupleCells : List TupleCellSpec
  tuplesIndex : List Nat
  i : Int

namespace OrderBy

section Methods

variable (std : StdSort) (others : Others O) (keys : List (OrderKey O))
  (child : PhysicalOperator X S TupleCellSpec (Value O)) (fuel : Nat)

def nextChild (s : OrderBy O S) : RC × OrderBy O S :=
  let (rc, c) := child.next s.child
  (rc, { s with child := c })

def closeChild (s : OrderBy O S) : OrderBy O S := { s with child := (child.close s.child).2 }

/-- `tuples_.emplace_back`. -/
def addTuple (s : OrderBy O S) : OrderBy O S :=
  { s with tuples := s.tuples ++ [readCells (child.currentTuple s.child)] }

/-- The loop over the rows behind the first one, and the code it ends with. -/
def collect : Nat → OrderBy O S → RC × OrderBy O S
  | 0, s => (.internal, s)
  | fuel + 1, s =>
    let (rc, s) := nextChild child s
    if rc = .success then collect fuel (addTuple child s) else (rc, s)

/-- `std::sort` of the numbers. -/
def sortTuples (index : List (OrderKey O × Option Nat)) (s : OrderBy O S) : OrderBy O S :=
  { s with
    tuplesIndex := std.sort (cmp others s.tupleCells index s.tuples) (List.range s.tuples.length)
    i := -1 }

/-- From the first row on. -/
def load (s : OrderBy O S) : RC × OrderBy O S :=
  let t := child.currentTuple s.child
  let s := addTuple child { s with tupleCells := readSpecs t s.tupleCells }
  match fieldIndex s.tupleCells keys with
  | none => (.invalidArgument, closeChild child s)
  | some index =>
    let (rc, s) := collect child fuel s
    if rc ≠ .recordEof then (rc, s) else (.success, sortTuples std others index s)

/-- `open`; an empty child ends it before the keys are looked for. -/
def openOperator (trx : X) (s : OrderBy O S) : RC × OrderBy O S :=
  let (rc, c) := child.openOperator trx s.child
  let s := { s with child := c }
  if rc ≠ .success then (rc, closeChild child s)
  else
    let (rc, s) := nextChild child s
    if rc = .success then load std others keys child fuel s
    else if rc ≠ .recordEof then (rc, s)
    else (.success, s)

def next (s : OrderBy O S) : RC × OrderBy O S :=
  let s := { s with i := s.i + 1 }
  (if s.i = s.tuplesIndex.length then .recordEof else .success, s)

def close (s : OrderBy O S) : RC × OrderBy O S :=
  (.success, { closeChild child s with tuples := [], tupleCells := [], tuplesIndex := [], i := -1 })

def currentTuple (s : OrderBy O S) : Tuple TupleCellSpec (Value O) :=
  shellTuple s.tupleCells (s.tuples.getD (s.tuplesIndex.getD s.i.toNat 0) [])

/-- `fuel` bounds the rows that are read. -/
def operator : PhysicalOperator X (OrderBy O S) TupleCellSpec (Value O) where
  openOperator := openOperator std others keys child fuel
  next := next
  close := close child
  currentTuple := currentTuple

end Methods

/-- The fields of a new object, whatever the state of the child is. -/
structure Fresh (s : OrderBy O S) : Prop where
  tuples : s.tuples = []
  tupleCells : s.tupleCells = []
  tuplesIndex : s.tuplesIndex = []
  i : s.i = -1

end OrderBy

/-! ## What the output should be -/

/-- What a value is sorted by: nothing where it is read as NULL. -/
def sortKey {t : OperandType} (a : Item t) : Option t.Data := if a.cell.isNull then none else a.sql

/-- NULL below every value, and the values of a type in their order. -/
def Value.order : Value O → Value O → Int
  | operand t a, operand t' b =>
    if h : t = t' then noneFirst OperandType.order (sortKey a) (sortKey (h ▸ b)) else 0
  | _, _ => 0

/-- The order of the rows by one key, for the columns that the keys are bound to. -/
def OrderKey.order (column : OrderKey O → Nat) (k : OrderKey O) (left right : List (Value O)) : Int :=
  let value (row : List (Value O)) := row.getD (column k) .undefined
  match k.type with
  | .asc => (value left).order (value right)
  | .desc => (value right).order (value left)

/-- The order by all keys: the first one that tells the rows apart. -/
def rowOrder (column : OrderKey O → Nat) (keys : List (OrderKey O)) : List (Value O) → List (Value O) → Int :=
  firstCmp (keys.map (OrderKey.order column))

/-- Columns, and rows with a value for each of them. -/
structure ResultSet (O : Type) where
  specs : List TupleCellSpec
  rows : List (List (Value O))
  width : ∀ row ∈ rows, row.length = specs.length

namespace ResultSet

/-- The tuples are the rows. -/
def Gives (r : ResultSet O) (ts : List (Tuple TupleCellSpec (Value O))) : Prop :=
  List.Forall₂ (fun t row => t.cells = row.map .ok ∧ t.specs = r.specs.map .ok) ts r.rows

/-- Each key is bound to a column of the type INT, DATE or CHARS. -/
structure Binds (r : ResultSet O) (column : OrderKey O → Nat) (keys : List (OrderKey O)) : Prop where
  typed : ∀ k ∈ keys, ∃ t, ∀ row ∈ r.rows, ∃ a : Item t, row.getD (column k) .undefined = .operand t a
  /-- It is a field, not a function. -/
  field : ∀ k ∈ keys, k.isVectorFunction = false
  /-- Where a column has the names of the key, it is the key's. -/
  named : ∀ k ∈ keys, ∀ i, k.position r.specs = some i → i = column k

/-- Each key is called as a column is. -/
def Finds (r : ResultSet O) (keys : List (OrderKey O)) : Prop := ∀ k ∈ keys, (k.position r.specs).isSome

end ResultSet

/-! ## The comparison -/

section Keys

variable {t : OperandType} {others : Others O} {specs : List TupleCellSpec} {keys : List (OrderKey O)}

/-- NULL is below each value, on the left side and on the right. -/
theorem isNull_compare {v w : t.Raw} :
    (OperandType.isNull v = true → OperandType.compare v w = -1) ∧
      (OperandType.isNull v = false → OperandType.isNull w = true → OperandType.compare v w = 1) := by
  have habsent : ∀ {α : Type} (absent : α → Bool) (cmp : α → α → Int) (a b : α),
      (absent a = true → absentFirst absent cmp a b = -1) ∧
        (absent a = false → absent b = true → absentFirst absent cmp a b = 1) := by
    intro α absent cmp a b
    unfold absentFirst
    exact ⟨fun ha => if_pos ha, fun ha hb => by rw [if_neg (by rw [ha]; exact Bool.false_ne_true), if_pos hb]⟩
  cases t with
  | ints => exact habsent _ _ v w
  | dates => exact habsent _ _ v w
  | chars => exact habsent _ _ v w

/-- A NULL on the left is below everything. -/
theorem compare_of_isNull {c d : Cell t} (hc : c.isNull = true) : c.compare d = -1 := by
  cases c with
  | nullValue => rfl
  | value v =>
    cases d with
    | nullValue => exact if_pos hc
    | value w => exact isNull_compare.1 hc

/-- So it is for the cells. -/
theorem compare_isNull {c d : Cell t} (hc : c.isNull = false) (hd : d.isNull = true) : c.compare d = 1 := by
  cases c with
  | nullValue => cases hc
  | value v =>
    cases d with
    | nullValue =>
      have hv : OperandType.isNull v = false := hc
      show (if OperandType.isNull v = true then (-1 : Int) else 1) = 1
      rw [hv]
      rfl
    | value w => exact isNull_compare.2 hc hd

/-- The comparison of a key is that of an order with NULL first. -/
theorem keyResult_eq (a b : Item t) :
    keyResult others (.operand t a) (.operand t b) = Value.order (.operand t a : Value O) (.operand t b) := by
  have hcode : keyResult others (.operand t a) (.operand t b) =
      if a.cell.isNull && b.cell.isNull then 0 else a.cell.compare b.cell := by
    unfold keyResult Value.compare Value.isNull
    simp
  have horder : Value.order (.operand t a : Value O) (.operand t b) =
      noneFirst OperandType.order (sortKey a) (sortKey b) := by
    unfold Value.order
    simp
  rw [hcode, horder]
  unfold sortKey
  cases ha : a.cell.isNull with
  | true =>
    cases hb : b.cell.isNull with
    | true => rfl
    | false =>
      obtain ⟨y, hy, -, -⟩ := Item.of_not_isNull hb
      rw [hy]
      exact compare_of_isNull ha
  | false =>
    obtain ⟨x, hx, hxcell, hxnull⟩ := Item.of_not_isNull ha
    rw [hx]
    cases hb : b.cell.isNull with
    | true => exact compare_isNull ha hb
    | false =>
      obtain ⟨y, hy, hycell, hynull⟩ := Item.of_not_isNull hb
      rw [hy, hxcell, hycell]
      exact OperandType.compare_raw hxnull hynull

/-- On data without NULL the comparisons of the types are orders. -/
theorem lawful_order_data : Lawful (@OperandType.order t) Set.univ := by
  cases t with
  | ints => exact (@lawful_image_iff Int32 Int linearCmp Int32.toInt Set.univ).mp (lawful_linearCmp _)
  | dates =>
    exact (@lawful_image_iff {date : Int32 // checkDate date = true} Int linearCmp (fun d => d.val.toInt)
      Set.univ).mp (lawful_linearCmp _)
  | chars =>
    exact (@lawful_image_iff {s : List UInt8 // ∀ b ∈ s, b ≠ 0} (List UInt8) (listCmp OperandType.byteOrder)
      Subtype.val Set.univ).mp (lawful_listCmp lawful_compareByte _)

/-- On the values of one type. -/
theorem lawful_order : Lawful (Value.order (O := O)) {v | ∃ a : Item t, v = .operand t a} := by
  have heq : ∀ a b : Item t, Value.order (.operand t a : Value O) (.operand t b) =
      noneFirst OperandType.order (sortKey a) (sortKey b) := by
    intro a b
    unfold Value.order
    simp
  have hitems : Lawful (fun a b : Item t => Value.order (.operand t a : Value O) (.operand t b)) Set.univ :=
    (lawful_image_iff.mp (lawful_noneFirst lawful_order_data (sortKey '' Set.univ))).congr
      fun a _ b _ => heq a b
  refine (lawful_image_iff.mpr hitems).mono ?_
  rintro _ ⟨a, rfl⟩
  exact ⟨a, trivial, rfl⟩

/-- Where each key is a column, they are all found. -/
theorem fieldIndex_eq {column : OrderKey O → Nat} (h : ∀ k ∈ keys, k.position specs = some (column k)) :
    fieldIndex specs keys = some (keys.map fun k => (k, some (column k))) := by
  induction keys with
  | nil => rfl
  | cons k keys ih =>
    obtain ⟨hk, hkeys⟩ := List.forall_mem_cons.mp h
    rw [fieldIndex, hk, ih hkeys, List.map_cons]
    rfl

/-- A field that is not found is refused. -/
theorem fieldIndex_isSome_iff (hfield : ∀ k ∈ keys, k.isVectorFunction = false) :
    (fieldIndex specs keys).isSome ↔ ∀ k ∈ keys, (k.position specs).isSome := by
  induction keys with
  | nil => simp [fieldIndex]
  | cons k keys ih =>
    obtain ⟨hk, hkeys⟩ := List.forall_mem_cons.mp hfield
    rw [List.forall_mem_cons, ← ih hkeys, fieldIndex]
    cases k.position specs with
    | none => simp [hk]
    | some i => simp

variable {r : ResultSet O} {column : OrderKey O → Nat}

/-- A column that is found is the one that the key is bound to. -/
theorem ResultSet.Binds.finds_iff (h : r.Binds column keys) :
    r.Finds keys ↔ ∀ k ∈ keys, k.position r.specs = some (column k) := by
  refine forall₂_congr fun k hk => ?_
  constructor
  · intro hfound
    obtain ⟨i, hi⟩ := Option.isSome_iff_exists.mp hfound
    rw [hi, h.named k hk i hi]
  · intro hfound
    rw [hfound]
    rfl

/-- Rows are compared by the keys, one after the other, each in its direction. -/
theorem lawful_rowOrder (h : r.Binds column keys) : Lawful (rowOrder column keys) {row | row ∈ r.rows} := by
  refine lawful_firstCmp fun c hc => ?_
  obtain ⟨k, hk, rfl⟩ := List.mem_map.mp hc
  obtain ⟨t, hvalues⟩ := h.typed k hk
  have hkey : Lawful (fun left right : List (Value O) => Value.order (left.getD (column k) .undefined)
      (right.getD (column k) .undefined)) {row | row ∈ r.rows} := by
    refine lawful_image_iff.mp ((@lawful_order O t).mono ?_)
    rintro _ ⟨row, hrow, rfl⟩
    exact hvalues row hrow
  unfold OrderKey.order
  cases k.type with
  | asc => exact hkey
  | desc => exact hkey.swap

theorem ResultSet.Binds.mono (h : r.Binds column keys) {keys' : List (OrderKey O)} (hsub : keys' ⊆ keys) :
    r.Binds column keys' where
  typed k hk := h.typed k (hsub hk)
  field k hk := h.field k (hsub hk)
  named k hk := h.named k (hsub hk)

/-- The loop over the keys compares the rows in their order. -/
theorem compareRows_eq (h : r.Binds column keys) {left right : List (Value O)} (hleft : left ∈ r.rows)
    (hright : right ∈ r.rows) :
    compareRows others r.specs (keys.map fun k => (k, some (column k))) left right =
      decide (rowOrder column keys left right < 0) := by
  induction keys with
  | nil => rfl
  | cons k keys ih =>
    have hrest := ih (h.mono fun k' hk' => List.mem_cons_of_mem k hk')
    obtain ⟨t, hvalues⟩ := h.typed k (List.mem_cons_self ..)
    obtain ⟨a, ha⟩ := hvalues left hleft
    obtain ⟨b, hb⟩ := hvalues right hright
    have hanti := (@lawful_order O t).antisymm _ ⟨a, rfl⟩ _ ⟨b, rfl⟩
    have hanti' := (@lawful_order O t).antisymm _ ⟨b, rfl⟩ _ ⟨a, rfl⟩
    have horder : rowOrder column (k :: keys) left right =
        if k.order column left right ≠ 0 then k.order column left right
        else rowOrder column keys left right := rfl
    have hvalue : ∀ row, keyValue r.specs (k, some (column k)) row = row.getD (column k) .undefined := fun _ => rfl
    rw [List.map_cons, compareRows, hvalue, hvalue, ha, hb, keyResult_eq, hrest, horder]
    unfold OrderKey.order
    simp only [ha, hb]
    cases hdir : k.type with
    | asc =>
      by_cases hzero : Value.order (.operand t a : Value O) (.operand t b) = 0
      · simp [hzero]
      · simp [hzero]
    | desc =>
      by_cases hzero : Value.order (.operand t a : Value O) (.operand t b) = 0
      · have hback : Value.order (.operand t b : Value O) (.operand t a) = 0 := by omega
        simp [hzero, hback]
      · have hback : Value.order (.operand t b : Value O) (.operand t a) ≠ 0 := by omega
        simp only [hzero, if_false, hback, ne_eq, not_false_eq_true, if_true, reduceCtorEq]
        exact decide_eq_decide.mpr hanti'.symm

end Keys

/-! ## The sorted rows -/

section Sorted

variable {std : StdSort} {others : Others O} {keys : List (OrderKey O)} {column : OrderKey O → Nat} {r : ResultSet O}

/-- The number of a row and the row. -/
theorem getD_mem {rows : List (List (Value O))} {i : Nat} (h : i < rows.length) : rows.getD i [] ∈ rows := by
  rw [List.getD_eq_getElem rows [] h]
  exact List.getElem_mem h

theorem cmp_eq (h : r.Binds column keys) {i j : Nat} (hi : i < r.rows.length) (hj : j < r.rows.length) :
    cmp others r.specs (keys.map fun k => (k, some (column k))) r.rows i j =
      decide (rowOrder column keys (r.rows.getD i []) (r.rows.getD j []) < 0) :=
  compareRows_eq h (getD_mem hi) (getD_mem hj)

/-- `cmp` is what `std::sort` needs. -/
theorem strictWeak_cmp (h : r.Binds column keys) :
    StrictWeak (cmp others r.specs (keys.map fun k => (k, some (column k))) r.rows)
      {i | i < r.rows.length} := by
  have hnumbers : Lawful (fun i j => rowOrder column keys (r.rows.getD i []) (r.rows.getD j []))
      {i | i < r.rows.length} := by
    refine (@lawful_image_iff Nat _ (rowOrder column keys) (fun i => r.rows.getD i []) _).mp
      ((lawful_rowOrder h).mono ?_)
    rintro _ ⟨i, hi, rfl⟩
    exact getD_mem hi
  have hstrict := hnumbers.strictWeak
  refine ⟨?_, ?_, ?_⟩
  · intro i hi
    rw [cmp_eq h hi hi]
    exact hstrict.irrefl i hi
  · intro i hi j hj k hk
    rw [cmp_eq h hi hj, cmp_eq h hj hk, cmp_eq h hi hk]
    exact hstrict.trans i hi j hj k hk
  · intro i hi j hj k hk
    rw [cmp_eq h hi hj, cmp_eq h hj hi, cmp_eq h hj hk, cmp_eq h hk hj, cmp_eq h hi hk, cmp_eq h hk hi]
    exact hstrict.equiv_trans i hi j hj k hk

variable (std others keys column r)

/-- The numbers of the rows, sorted. -/
def sortedIndex : List Nat :=
  std.sort (cmp others r.specs (keys.map fun k => (k, some (column k))) r.rows) (List.range r.rows.length)

variable {std others keys column r}

theorem range_getD (rows : List (List (Value O))) :
    (List.range rows.length).map (fun i => rows.getD i []) = rows := by
  apply List.ext_getElem
  · rw [List.length_map, List.length_range]
  · intro i hi hi'
    rw [List.getElem_map, List.getElem_range, List.getD_eq_getElem rows [] hi']

/-- The numbers of the rows come out sorted. -/
theorem sortedIndex_spec (h : r.Binds column keys) :
    (sortedIndex std others keys column r).Perm (List.range r.rows.length) ∧
      (sortedIndex std others keys column r).Pairwise fun i j =>
        rowOrder column keys (r.rows.getD i []) (r.rows.getD j []) ≤ 0 := by
  have hset : {i | i ∈ List.range r.rows.length} = {i | i < r.rows.length} := by
    ext i
    exact List.mem_range
  have hstrict : StrictWeak (cmp others r.specs (keys.map fun k => (k, some (column k))) r.rows)
      {i | i ∈ List.range r.rows.length} := by
    rw [hset]
    exact strictWeak_cmp h
  have hperm := std.perm _ _ hstrict
  refine ⟨hperm, (std.sorted _ _ hstrict).imp_of_mem ?_⟩
  intro i j hi hj hji
  have hi' : i < r.rows.length := List.mem_range.mp (hperm.mem_iff.mp hi)
  have hj' : j < r.rows.length := List.mem_range.mp (hperm.mem_iff.mp hj)
  rw [cmp_eq h hj' hi'] at hji
  have hanti := (lawful_rowOrder h).antisymm _ (getD_mem hj') _ (getD_mem hi')
  have hnot : ¬ rowOrder column keys (r.rows.getD j []) (r.rows.getD i []) < 0 := of_decide_eq_false hji
  omega

/-- The rows in the order of the keys. -/
def sortedRows (std : StdSort) (others : Others O) (keys : List (OrderKey O)) (column : OrderKey O → Nat)
    (r : ResultSet O) : List (List (Value O)) :=
  (sortedIndex std others keys column r).map fun i => r.rows.getD i []

theorem sortedRows_perm (h : r.Binds column keys) : (sortedRows std others keys column r).Perm r.rows := by
  have hperm : (sortedIndex std others keys column r).Perm (List.range r.rows.length) := (sortedIndex_spec h).1
  have hrows := hperm.map fun i => r.rows.getD i []
  rwa [range_getD] at hrows

theorem sortedRows_sorted (h : r.Binds column keys) :
    (sortedRows std others keys column r).Pairwise fun a b => rowOrder column keys a b ≤ 0 :=
  List.pairwise_map.mpr (sortedIndex_spec h).2

end Sorted

/-! ## Reading the child -/

section Reading

variable {r : ResultSet O} {t : Tuple TupleCellSpec (Value O)} {row : List (Value O)}

theorem readCells_eq (h : t.cells = row.map .ok) : readCells t = row := by
  unfold readCells
  rw [h, List.map_map]
  exact List.map_id row

theorem map_readCells {specs : List TupleCellSpec} {ts : List (Tuple TupleCellSpec (Value O))}
    {rows : List (List (Value O))}
    (h : List.Forall₂ (fun t row => t.cells = row.map .ok ∧ t.specs = specs.map .ok) ts rows) :
    ts.map readCells = rows := by
  induction h with
  | nil => rfl
  | cons ht _ ih => rw [List.map_cons, readCells_eq ht.1, ih]

/-- Where all calls succeed their codes can be forgotten. -/
theorem map_range_ok {α β : Type} {f : α → Except RC β} (other : α → β) {l : List α} {bs : List β}
    (h : l.map f = bs.map .ok) : (l.map fun a => (f a).toOption.getD (other a)) = bs := by
  induction l generalizing bs with
  | nil =>
    cases bs with
    | nil => rfl
    | cons b bs => cases h
  | cons a l ih =>
    cases bs with
    | nil => cases h
    | cons b bs =>
      rw [List.map_cons, List.map_cons] at h
      obtain ⟨ha, hl⟩ := List.cons.inj h
      rw [List.map_cons, ha, ih hl]
      rfl

theorem readSpecs_eq {specs : List TupleCellSpec} (h : t.specs = specs.map .ok) (tupleCells) :
    readSpecs t tupleCells = specs :=
  @map_range_ok Nat TupleCellSpec (fun i : Nat => t.specAt i) (fun i => tupleCells.getD i default) _ _ h

/-- What a `ShellTuple` shows. -/
theorem shellTuple_shows (specs : List TupleCellSpec) (h : row.length = specs.length) :
    (shellTuple specs row).cells = row.map .ok ∧ (shellTuple specs row).specs = specs.map .ok := by
  have hread : ∀ {α : Type} (other : α) (l : List α), l.length = row.length →
      ((List.range row.length).map fun i : Nat =>
        if (i : Int) < 0 ∨ (i : Int) ≥ row.length then (.error .notfound : Except RC α)
        else .ok (l.getD (i : Int).toNat other)) = l.map .ok := by
    intro α other l hl
    apply List.ext_getElem
    · rw [List.length_map, List.length_map, List.length_range, hl]
    · intro i hi hi'
      rw [List.length_map] at hi'
      rw [List.getElem_map, List.getElem_map, List.getElem_range, if_neg (by omega), Int.toNat_natCast,
        List.getD_eq_getElem l other hi']
  exact ⟨@hread (Value O) .undefined row rfl, @hread TupleCellSpec default specs h.symm⟩

end Reading

/-! ## Runs -/

namespace OrderBy

section Runs

variable {std : StdSort} {others : Others O} {keys : List (OrderKey O)} {column : OrderKey O → Nat}
  {child : PhysicalOperator X S TupleCellSpec (Value O)} {fuel : Nat} {trx : X}
  {all ts : List (Tuple TupleCellSpec (Value O))} {r : ResultSet O} {s : OrderBy O S}

/-- The rows that the object holds, in the order in which it shows them. -/
def shown (s : OrderBy O S) : List (Tuple TupleCellSpec (Value O)) :=
  s.tuplesIndex.map fun i => shellTuple s.tupleCells (s.tuples.getD i [])

/-- The object has been opened, and these are the rows to come. -/
def Ahead (R : Replay child trx all) (us : List (Tuple TupleCellSpec (Value O))) (s : OrderBy O S) : Prop :=
  R.Opened s.child ∧ ∃ k ≤ s.tuplesIndex.length, s.i = k - 1 ∧ us = s.shown.drop k

/-- The loop reads the rest of the rows. -/
theorem collect_spec (R : Replay child trx all) (hfuel : ts.length < fuel) (h : R.Ahead ts s.child) :
    ∃ c, R.Opened c ∧ collect child fuel s
      = (.recordEof, { s with child := c, tuples := s.tuples ++ ts.map readCells }) := by
  induction ts generalizing s fuel with
  | nil =>
    obtain ⟨c, hnext, hc⟩ := R.eof s.child h
    cases fuel with
    | zero => cases hfuel
    | succ fuel =>
      refine ⟨c, hc, ?_⟩
      rw [List.map_nil, List.append_nil]
      unfold collect nextChild
      simp [hnext]
  | cons t ts ih =>
    obtain ⟨c, hnext, hcurrent, hc⟩ := R.row t ts s.child h
    cases fuel with
    | zero => cases hfuel
    | succ fuel =>
      obtain ⟨c', hc', hcollect⟩ := @ih fuel { s with child := c, tuples := s.tuples ++ [readCells t] }
        (Nat.lt_of_succ_lt_succ hfuel) hc
      refine ⟨c', hc', ?_⟩
      have hstep : collect child (fuel + 1) s =
          collect child fuel { s with child := c, tuples := s.tuples ++ [readCells t] } := by
        rw [collect]
        unfold nextChild addTuple
        simp [hnext, hcurrent]
      rw [hstep, hcollect, List.map_cons]
      simp

/-- An open from the fields of a new object, where there is no row or the keys are found. -/
theorem openOperator_spec (R : Replay child trx ts) (hr : r.Gives ts) (hkeys : r.Binds column keys)
    (hfinds : r.rows = [] ∨ r.Finds keys) (hfuel : ts.length < fuel) (hfresh : Fresh s) (h : R.Closed s.child) :
    ∃ s', openOperator std others keys child fuel trx s = (.success, s') ∧
      Ahead R ((sortedRows std others keys column r).map (shellTuple r.specs)) s' := by
  obtain ⟨c, hopen, hc⟩ := R.opens s.child h
  cases ts with
  | nil =>
    -- no row: the fields stay as they are
    have hrows : r.rows = [] := List.forall₂_nil_left_iff.mp hr
    obtain ⟨c', hnext, hc'⟩ := R.eof c hc
    refine ⟨{ s with child := c' }, ?_, hc', 0, Nat.zero_le _, hfresh.i, ?_⟩
    · unfold openOperator nextChild
      simp [hopen, hnext]
    · have hsorted : sortedRows std others keys column r = [] :=
        List.Perm.eq_nil (by rw [← hrows]; exact sortedRows_perm hkeys)
      rw [hsorted]
      unfold shown
      rw [hfresh.tuplesIndex]
      rfl
  | cons t rest =>
    obtain ⟨row, rows, ⟨hcells, hspecs⟩, hrest, hrows⟩ := List.forall₂_cons_left_iff.mp hr
    obtain ⟨c₁, hnext, hcurrent, hc₁⟩ := R.row t rest c hc
    let first : OrderBy O S := { s with child := c₁, tupleCells := r.specs, tuples := [row] }
    obtain ⟨c₂, hc₂, hcollect⟩ := @collect_spec O X S child fuel trx (t :: rest) rest first R
      (by rw [List.length_cons] at hfuel; omega) hc₁
    have hall : [row] ++ rest.map readCells = r.rows := by
      rw [map_readCells hrest, hrows]
      rfl
    have hindex : fieldIndex r.specs keys = some (keys.map fun k => (k, some (column k))) := by
      refine fieldIndex_eq (hkeys.finds_iff.mp (hfinds.resolve_left ?_))
      rw [hrows]
      exact List.cons_ne_nil _ _
    have hload : load std others keys child fuel { s with child := c₁ } = (.success,
        { child := c₂, tuples := r.rows, tupleCells := r.specs,
          tuplesIndex := sortedIndex std others keys column r, i := -1 }) := by
      have hadd : addTuple child { s with child := c₁, tupleCells := readSpecs t s.tupleCells } = first := by
        unfold addTuple
        dsimp only
        rw [hcurrent, readCells_eq hcells, readSpecs_eq hspecs, hfresh.tuples]
        rfl
      have hsort : sortTuples std others (keys.map fun k => (k, some (column k)))
          { first with child := c₂, tuples := [row] ++ rest.map readCells } =
            { child := c₂, tuples := r.rows, tupleCells := r.specs,
              tuplesIndex := sortedIndex std others keys column r, i := -1 } := by
        rw [hall]
        rfl
      unfold load
      simp only [hcurrent, hadd]
      rw [show first.tupleCells = r.specs from rfl, hindex]
      simp only [hcollect, ne_eq, not_true_eq_false, if_false]
      exact congrArg _ hsort
    refine ⟨⟨c₂, r.rows, r.specs, sortedIndex std others keys column r, -1⟩, ?_, hc₂, 0, Nat.zero_le _, rfl, ?_⟩
    · unfold openOperator nextChild
      simp only [hopen, hnext, ne_eq, not_true_eq_false, if_false, if_true]
      exact hload
    · unfold shown sortedRows
      rw [List.map_map]
      rfl

/-- An open where a key is not found in the first row. -/
theorem openOperator_refuses (R : Replay child trx ts) (hr : r.Gives ts) (hkeys : r.Binds column keys)
    (hne : r.rows ≠ []) (hfinds : ¬ r.Finds keys) (h : R.Closed s.child) :
    (openOperator std others keys child fuel trx s).1 = .invalidArgument := by
  obtain ⟨c, hopen, hc⟩ := R.opens s.child h
  cases ts with
  | nil => exact absurd (List.forall₂_nil_left_iff.mp hr) hne
  | cons t rest =>
    obtain ⟨row, rows, ⟨-, hspecs⟩, -, -⟩ := List.forall₂_cons_left_iff.mp hr
    obtain ⟨c₁, hnext, hcurrent, -⟩ := R.row t rest c hc
    have hindex : fieldIndex r.specs keys = none := by
      rw [← Option.not_isSome_iff_eq_none, fieldIndex_isSome_iff hkeys.field]
      exact hfinds
    have hload : (load std others keys child fuel { s with child := c₁ }).1 = .invalidArgument := by
      unfold load addTuple
      simp only [hcurrent, readSpecs_eq hspecs, hindex]
    unfold openOperator nextChild
    simp only [hopen, hnext, ne_eq, not_true_eq_false, if_false, if_true]
    exact hload

/-- A step: the next row, or the end. -/
theorem next_spec {R : Replay child trx all} {us : List (Tuple TupleCellSpec (Value O))} (h : Ahead R us s) :
    (∀ u rest, us = u :: rest → ∃ s', next s = (.success, s') ∧ s'.currentTuple = u ∧ Ahead R rest s') ∧
      (us = [] → ∃ s', next s = (.recordEof, s') ∧ R.Opened s'.child) := by
  obtain ⟨hopened, k, hk, hi, rfl⟩ := h
  have hlength : s.shown.length = s.tuplesIndex.length := by
    unfold shown
    rw [List.length_map]
  have hstep : s.i + 1 = k := by omega
  constructor
  -- a row is left: `i_` moves onto it, and the shell tuple is filled from it
  · intro u rest hdrop
    have hlt : k < s.shown.length := by
      by_contra hge
      rw [List.drop_eq_nil_of_le (by omega)] at hdrop
      cases hdrop
    rw [List.drop_eq_getElem_cons hlt] at hdrop
    obtain ⟨rfl, rfl⟩ := List.cons.inj hdrop
    refine ⟨{ s with i := k }, ?_, ?_, hopened, k + 1, ?_, ?_, rfl⟩
    · unfold next
      simp only [hstep]
      rw [if_neg (by omega)]
    · have hindex : k < s.tuplesIndex.length := by omega
      have hshown : s.shown[k]? = some (shellTuple s.tupleCells (s.tuples.getD s.tuplesIndex[k] [])) := by
        unfold shown
        rw [List.getElem?_map, List.getElem?_eq_getElem hindex]
        rfl
      rw [List.getElem?_eq_getElem hlt] at hshown
      rw [Option.some.inj hshown]
      unfold currentTuple
      simp only [Int.toNat_natCast]
      rw [List.getD_eq_getElem s.tuplesIndex 0 hindex]
    · show k + 1 ≤ s.tuplesIndex.length
      omega
    · show (k : Int) = ((k + 1 : Nat) : Int) - 1
      omega
  -- no row is left: `i_` stands behind the last one
  · intro hdrop
    have hge : s.shown.length ≤ k := List.drop_eq_nil_iff.mp hdrop
    refine ⟨{ s with i := k }, ?_, hopened⟩
    unfold next
    simp only [hstep]
    rw [if_pos (by omega)]

theorem close_fresh (s : OrderBy O S) : Fresh (close child s).2 := ⟨rfl, rfl, rfl, rfl⟩

/-- The operator gives the sorted rows of its child. -/
def replay (std : StdSort) (others : Others O) (R : Replay child trx ts) (hr : r.Gives ts)
    (hkeys : r.Binds column keys) (hfinds : r.rows = [] ∨ r.Finds keys) (hfuel : ts.length < fuel) :
    Replay (operator std others keys child fuel) trx
      ((sortedRows std others keys column r).map (shellTuple r.specs)) where
  Closed s := Fresh s ∧ R.Closed s.child
  Ahead := Ahead R
  Opened s := R.Opened s.child
  opens s h := openOperator_spec R hr hkeys hfinds hfuel h.1 h.2
  row u us s h := (next_spec h).1 u us rfl
  eof s h := (next_spec h).2 rfl
  opened us s h := h.1
  closes s h := by
    obtain ⟨c, hclose, hc⟩ := R.closes s.child h
    have hchild : (close child s).2.child = c := congrArg Prod.snd hclose
    refine ⟨(close child s).2, rfl, close_fresh s, ?_⟩
    rw [hchild]
    exact hc

end Runs

/-- What the operator should do.  The comparison is a strict weak order of the rows; and whenever the object is
    opened it gives the rows that its child gives then, sorted by the columns of the keys. -/
structure Sorts (std : StdSort) (others : Others O) (keys : List (OrderKey O)) (column : OrderKey O → Nat)
    (child : PhysicalOperator X S TupleCellSpec (Value O)) (fuel : Nat) (trx : X) (r : ResultSet O)
    (s : OrderBy O S) : Prop where
  strictWeak : r.rows ≠ [] → ∃ index, fieldIndex r.specs keys = some index ∧
    StrictWeak (cmp others r.specs index r.rows) {i | i < r.rows.length}
  rows : ∃ (us : List (Tuple TupleCellSpec (Value O))) (out : ResultSet O),
    Replays (operator std others keys child fuel) trx us s ∧
    out.Gives us ∧ out.specs = r.specs ∧ out.rows.Perm r.rows ∧
    out.rows.Pairwise fun a b => rowOrder column keys a b ≤ 0

/-- **ORDER BY.**  A close leaves nothing behind, whatever the state is; and an object that is new or has been
    closed does what it should do exactly if there is no row, or each key is called as a column of the first row. -/
theorem order_by_sorts_iff (std : StdSort) (others : Others O) (keys : List (OrderKey O)) (column : OrderKey O → Nat)
    (child : PhysicalOperator X S TupleCellSpec (Value O)) :
    (∀ s, Fresh (close child s).2) ∧
    ∀ fuel trx ts (r : ResultSet O) s, r.Gives ts → r.Binds column keys → ts.length < fuel → Fresh s →
      Replays child trx ts s.child →
      (Sorts std others keys column child fuel trx r s ↔ r.rows = [] ∨ r.Finds keys) := by
  refine ⟨close_fresh, ?_⟩
  rintro fuel trx ts r s hr hkeys hfuel hfresh ⟨R, hclosed⟩
  constructor
  · rintro ⟨-, us, out, ⟨R', hclosed'⟩, -⟩
    by_contra hnot
    obtain ⟨hne, hfinds⟩ := not_or.mp hnot
    obtain ⟨s', hopen, -⟩ := R'.opens s hclosed'
    have hrefused : (openOperator std others keys child fuel trx s).1 = .invalidArgument :=
      openOperator_refuses R hr hkeys hne hfinds hclosed
    have hopen : openOperator std others keys child fuel trx s = (.success, s') := hopen
    rw [hopen] at hrefused
    cases hrefused
  · intro hfinds
    refine ⟨fun hne => ?_, ?_⟩
    · exact ⟨_, fieldIndex_eq (hkeys.finds_iff.mp (hfinds.resolve_left hne)), strictWeak_cmp hkeys⟩
    · have hperm := @sortedRows_perm O std others keys column r hkeys
      have hwidth : ∀ row ∈ sortedRows std others keys column r, row.length = r.specs.length := fun row hrow =>
        r.width row (hperm.mem_iff.mp hrow)
      refine ⟨_, ⟨r.specs, sortedRows std others keys column r, hwidth⟩,
        ⟨replay std others R hr hkeys hfinds hfuel, hfresh, hclosed⟩, ?_, rfl, hperm, sortedRows_sorted hkeys⟩
      show List.Forall₂ _ _ (sortedRows std others keys column r)
      rw [List.forall₂_map_left_iff, List.forall₂_same]
      exact fun row hrow => shellTuple_shows r.specs (hwidth row hrow)

def noOthers : Others Empty := ⟨Empty.elim, fun _ _ => 0⟩

/-- `ORDER BY id DESC` with one table `t` in the FROM list: `check_field` gives the field its own name as alias. -/
def byId : OrderKey Empty := ⟨"t", "id", "id", false, fun _ => .undefined, .desc⟩

/-- `RowTuple::spec_at` for the column `id` of the table `t`. -/
def idSpec (tableAlias : String) : TupleCellSpec :=
  if tableAlias ≠ "" then .make "t" "id" (tableAlias ++ "." ++ "id") else .make "t" "id" ""

/-- One column, with a NULL among the numbers. -/
def numbers (tableAlias : String) : ResultSet Empty where
  specs := [idSpec tableAlias]
  rows := [some 1, none, some 2].map fun n : Option Int32 => [.operand .ints (.value n)]
  width := by
    intro row hrow
    obtain ⟨n, -, rfl⟩ := List.mem_map.mp hrow
    rfl

theorem numbers_gives (tableAlias : String) :
    (numbers tableAlias).Gives ((numbers tableAlias).rows.map (shellTuple (numbers tableAlias).specs)) :=
  List.forall₂_map_left_iff.mpr (List.forall₂_same.mpr fun row hrow =>
    shellTuple_shows (numbers tableAlias).specs ((numbers tableAlias).width row hrow))

/-- The key is bound to the only column. -/
theorem numbers_binds (tableAlias : String) : (numbers tableAlias).Binds (fun _ => 0) [byId] where
  typed k _ := by
    refine ⟨.ints, fun row hrow => ?_⟩
    obtain ⟨n, -, rfl⟩ := List.mem_map.mp hrow
    exact ⟨.value n, rfl⟩
  field k hk := by
    obtain rfl := List.mem_singleton.mp hk
    rfl
  named k _ i hi := by
    have hlt : i < (numbers tableAlias).specs.length := (List.findIdx?_eq_some_iff_findIdx_eq.mp hi).1
    exact Nat.lt_one_iff.mp hlt

/-- `SELECT * FROM t ORDER BY id DESC`. -/
theorem order_by_sorts_iff_desc : Sorts mergeSorting noOthers [byId] (fun _ => 0)
    (scan ((numbers "").rows.map (shellTuple (numbers "").specs))) 4 () (numbers "")
    ⟨([], shellTuple [] []), [], [], [], -1⟩ := by
  refine ((order_by_sorts_iff mergeSorting noOthers [byId] (fun _ => 0)
    (scan ((numbers "").rows.map (shellTuple (numbers "").specs)))).2 4 () _ (numbers "") _ (numbers_gives _)
    (numbers_binds _) (by decide) ⟨rfl, rfl, rfl, rfl⟩ (scan_replays _ _ _)).mpr (.inr fun k hk => ?_)
  obtain rfl := List.mem_singleton.mp hk
  decide

/-- `SELECT * FROM t AS a ORDER BY id DESC`: the column is called `a.id`, the key `t.id`. -/
theorem aliased_key_refused :
    (openOperator mergeSorting noOthers [byId] (scan ((numbers "a").rows.map (shellTuple (numbers "a").specs))) 4 ()
      ⟨([], shellTuple [] []), [], [], [], -1⟩).1 = .invalidArgument ∧
    ¬ Sorts mergeSorting noOthers [byId] (fun _ => 0)
      (scan ((numbers "a").rows.map (shellTuple (numbers "a").specs))) 4 () (numbers "a")
      ⟨([], shellTuple [] []), [], [], [], -1⟩ := by
  have hfinds : ¬ (numbers "a").Finds [byId] := fun h => absurd (h byId (List.mem_singleton_self _)) (by decide)
  obtain ⟨R, hclosed⟩ := scan_replays ((numbers "a").rows.map (shellTuple (numbers "a").specs)) ()
    ([], shellTuple [] [])
  have hrefused : (openOperator mergeSorting noOthers [byId]
      (scan ((numbers "a").rows.map (shellTuple (numbers "a").specs))) 4 ()
      ⟨([], shellTuple [] []), [], [], [], -1⟩).1 = .invalidArgument :=
    openOperator_refuses R (numbers_gives _) (numbers_binds _) (List.cons_ne_nil _ _) hfinds hclosed
  refine ⟨hrefused, ?_⟩
  rintro ⟨-, us, out, ⟨R', hclosed'⟩, -⟩
  obtain ⟨s', hopen, -⟩ := R'.opens _ hclosed'
  have hopen : openOperator mergeSorting noOthers [byId]
    (scan ((numbers "a").rows.map (shellTuple (numbers "a").specs))) 4 ()
    ⟨([], shellTuple [] []), [], [], [], -1⟩ = (.success, s') := hopen
  rw [hopen] at hrefused
  cases hrefused

end OrderBy

end Miniob.Exec
