/-
  The header page of an index file (`IndexFileHeader` in src/observer/storage/index/bplus_tree.h,
  `BplusTreeHandler::create` and `open` in src/observer/storage/index/bplus_tree.cpp).

  1. The header has seven numbers, and arrays with room for the lengths and the types of 20 fields.  It is
     128 bytes long, and `create` fills the arrays without a look at their room: with more fields it
     writes over the first types and behind the header.
  2. `open` copies the 128 bytes and takes from the copy what it compares keys by; what it finds behind the
     copy is whatever lies there.
  3. `open_create`: with at most 20 fields the tree is opened as it was created.  `open_create_iff`: with
     more it is not, for some of what may lie behind.

  Left out: the root, and the pool of memory for keys.
-/
import Miniob.Index.BplusTree
import Miniob.Recovery.PageAllocator
import Miniob.Schema.TableMeta

namespace Miniob.Schema

open Miniob.Common Miniob.Common.Memory Miniob.Storage Miniob.Recovery

/-! ## The header -/

/-- The value of an `enum class AttrType : int8_t`. -/
def AttrType.code : AttrType → UInt8
  | undefined => 0
  | dates => 1
  | nulls => 2
  | chars => 3
  | ints => 4
  | floats => 5
  | vectors => 6
  | booleans => 7

namespace IndexFileHeader

/-- `sizeof(IndexFileHeader)`. -/
def size : Nat := 128

def attrsLength (i : Nat) : Nat := 28 + 4 * i

def attrsType (i : Nat) : Nat := 108 + i

/-- The room of both arrays. -/
def maxAttrs : Nat := 20

end IndexFileHeader

open IndexFileHeader

/-- The parts of a tree handler that come from its header: what keys are compared by, the sizes, and the
    fields that keys are taken from. -/
structure Tree where
  unique : Bool
  /-- `attrs_comparator_`: types and lengths. -/
  attrs : List (UInt8 × Int)
  keyLength : Int
  internalMaxSize : Int
  leafMaxSize : Int
  fieldsMeta : List FieldMeta
  deriving DecidableEq

/-- `calc_internal_page_capacity`, with `int`. -/
def calcInternalPageCapacity (attrLength : Int32) : Int32 := (.ofNat bpPageDataSize - 12) / (attrLength + 8 + 4)

/-- `calc_leaf_page_capacity`. -/
def calcLeafPageCapacity (attrLength : Int32) : Int32 := (.ofNat bpPageDataSize - 16) / (attrLength + 8 + 8)

/-- The loop over the fields, from the `i`-th on. -/
def writeAttrs (mem : Memory) (i : Nat) : List FieldMeta → Memory
  | [] => mem
  | field :: fields =>
    let mem := memcpy mem (attrsType i) [field.type.code] 1
    let mem := writeInt32 mem (attrsLength i) field.len.toInt
    writeAttrs mem (i + 1) fields

def attrLength (fields : List FieldMeta) : Int32 := (fields.map FieldMeta.len).sum

/-- The numbers of the header. -/
def writeNumbers (mem : Memory) (fields : List FieldMeta) (unique : Bool) (internalMaxSize leafMaxSize : Int32) :
    Memory :=
  let mem := writeInt32 mem 12 (attrLength fields).toInt
  let mem := writeInt32 mem 20 (attrLength fields + 8).toInt
  let mem := writeInt32 mem 4 internalMaxSize.toInt
  let mem := writeInt32 mem 8 leafMaxSize.toInt
  let mem := writeInt32 mem 0 bpInvalidPageNum
  let mem := writeInt32 mem 16 (Int32.ofNat fields.length).toInt
  writeInt32 mem 24 (if unique then 1 else 0)

/-- `create` on a page that was just allocated: the header page, and the handler, whose comparator is made from
    the fields themselves. -/
def create (page : Memory) (fields : List FieldMeta) (unique : Bool) (internalMaxSize leafMaxSize : Int32) :
    Memory × Tree :=
  let internalMaxSize := if internalMaxSize < 0 then calcInternalPageCapacity (attrLength fields) else internalMaxSize
  let leafMaxSize := if leafMaxSize < 0 then calcLeafPageCapacity (attrLength fields) else leafMaxSize
  let page := writeAttrs (writeNumbers page fields unique internalMaxSize leafMaxSize) 0 fields
  (page,
    { unique
      attrs := fields.map fun field => (field.type.code, field.len.toInt)
      keyLength := readInt32 page 20
      internalMaxSize := readInt32 page 4
      leafMaxSize := readInt32 page 8
      fieldsMeta := fields })

/-- The copy of the header, and what lies behind it. -/
def copyHeader (page behind : Memory) : Memory := fun a => if a < size then page a else behind a

/-- `open`. -/
def openTree (page behind : Memory) (fields : List FieldMeta) : Tree :=
  let fileHeader := copyHeader page behind
  { unique := decide (readInt32 fileHeader 24 ≠ 0)
    attrs := (List.range (readInt32 fileHeader 16).toNat).map fun i =>
      (fileHeader (attrsType i), readInt32 fileHeader (attrsLength i))
    keyLength := readInt32 fileHeader 20
    internalMaxSize := readInt32 fileHeader 4
    leafMaxSize := readInt32 fileHeader 8
    fieldsMeta := fields }

/-! ## The capacities -/

/-- The division does not wrap around. -/
theorem toInt_capacity {header n size : Nat} (hheader : header ≤ bpPageDataSize) (hn : n + size < 2 ^ 31)
    (hpos : 0 < n + size) :
    ((.ofNat bpPageDataSize - .ofNat header : Int32) / (.ofNat n + .ofNat size)).toInt
      = ((bpPageDataSize - header) / (n + size) : Nat) := by
  have hsize : bpPageDataSize < 2 ^ 31 := by decide
  have hnum : (.ofNat bpPageDataSize - .ofNat header : Int32).toInt = (bpPageDataSize - header : Nat) := by
    rw [Int32.toInt_sub, Int32.toInt_ofNat_of_lt hsize, Int32.toInt_ofNat_of_lt (by omega), Int.bmod_eq_of_le (by omega) (by omega)]
    omega
  have hden : (.ofNat n + .ofNat size : Int32).toInt = (n + size : Nat) := by
    rw [Int32.toInt_add, Int32.toInt_ofNat_of_lt (by omega), Int32.toInt_ofNat_of_lt (by omega), Int.bmod_eq_of_le (by omega) (by omega)]
    omega
  rw [Int32.toInt_div, hnum, hden, Int.tdiv_eq_ediv_of_nonneg (Int.natCast_nonneg _), ← Int.natCast_ediv]
  have hle := Nat.div_le_self (bpPageDataSize - header) (n + size)
  generalize (bpPageDataSize - header) / (n + size) = capacity at hle ⊢
  rw [Int.bmod_eq_of_le (by omega) (by omega)]

/-- As long as the sum of the lengths is an `int`, these are the capacities of the tree. -/
theorem toInt_calcPageCapacity {n : Nat} (hn : n + 16 < 2 ^ 31) :
    (calcInternalPageCapacity (.ofNat n)).toInt = Index.calcInternalPageCapacity n ∧
      (calcLeafPageCapacity (.ofNat n)).toInt = Index.calcLeafPageCapacity n := by
  unfold calcInternalPageCapacity calcLeafPageCapacity Index.calcInternalPageCapacity Index.calcLeafPageCapacity
  have hinternal := @toInt_capacity 12 n 12 (by decide) (by omega) (by omega)
  have hleaf := @toInt_capacity 16 n 16 (by decide) hn (by omega)
  rw [Int32.add_assoc, Int32.add_assoc]
  exact ⟨hinternal, hleaf⟩

/-! ## What is written -/

theorem readInt32_congr {mem mem' : Memory} {offset : Nat}
    (h : ∀ a, offset ≤ a → a < offset + 4 → mem a = mem' a) : readInt32 mem offset = readInt32 mem' offset := by
  rw [readInt32, readInt32, load_congr h]

theorem readInt32_toInt (mem : Memory) (offset : Nat) (x : Int32) :
    readInt32 (writeInt32 mem offset x.toInt) offset = x.toInt :=
  readInt32_writeInt32 x.le_toInt x.toInt_lt

/-- A place that the loop does not write to: in front of the arrays, whatever the number of fields, or, with
    room for all of them, in the part of an array that has been filled. -/
def Kept (i n a : Nat) : Prop :=
  a < attrsLength 0 ∨ (i + n ≤ maxAttrs ∧ (a < attrsLength i ∨ (attrsType 0 ≤ a ∧ a < attrsType i)))

/-- Fields are written to their own places. -/
theorem writeAttrs_kept {a : Nat} : ∀ (fields : List FieldMeta) (mem : Memory) (i : Nat),
    Kept i fields.length a → writeAttrs mem i fields a = mem a
  | [], _, _, _ => rfl
  | field :: fields, mem, i, h => by
    rw [List.length_cons] at h
    have hrest : Kept (i + 1) fields.length a := by
      unfold Kept attrsLength attrsType at h ⊢
      omega
    have hlength : a < attrsLength i ∨ attrsLength i + 4 ≤ a := by
      unfold Kept attrsLength attrsType maxAttrs at h
      unfold attrsLength
      omega
    have htype : a < attrsType i ∨ attrsType i + 1 ≤ a := by
      unfold Kept attrsLength attrsType maxAttrs at h
      unfold attrsType
      omega
    rw [writeAttrs, writeAttrs_kept fields _ (i + 1) hrest]
    rw [writeInt32, memcpy_of_outside hlength, memcpy_of_outside htype]

/-- With room for all fields, each finds its type and its length. -/
theorem writeAttrs_at : ∀ (fields : List FieldMeta) (mem : Memory) (i : Nat), i + fields.length ≤ maxAttrs →
    ∀ j field, fields[j]? = some field →
      writeAttrs mem i fields (attrsType (i + j)) = field.type.code ∧
        readInt32 (writeAttrs mem i fields) (attrsLength (i + j)) = field.len.toInt
  | [], _, _, _, j, field, h => by
    rw [List.getElem?_nil] at h
    cases h
  | f :: fields, mem, i, hroom, j, field, h => by
    rw [List.length_cons] at hroom
    rw [writeAttrs]
    cases j with
    | zero =>
      obtain rfl : f = field := Option.some.inj h
      -- what is written for the fields behind it is elsewhere
      have hkept : ∀ a, (attrsLength i ≤ a ∧ a < attrsLength i + 4) ∨ a = attrsType i →
          Kept (i + 1) fields.length a := by
        intro a ha
        unfold Kept attrsLength attrsType maxAttrs at *
        omega
      constructor
      · have hoff : attrsType i < attrsLength i ∨ attrsLength i + 4 ≤ attrsType i := by
          unfold attrsType attrsLength maxAttrs at *
          omega
        have hin : attrsType i ≤ attrsType i ∧ attrsType i < attrsType i + 1 := by omega
        show writeAttrs _ (i + 1) fields (attrsType i) = _
        rw [writeAttrs_kept fields _ _ (hkept _ (Or.inr rfl)), writeInt32, memcpy_of_outside hoff, memcpy, if_pos hin,
          Nat.sub_self]
        rfl
      · show readInt32 (writeAttrs _ (i + 1) fields) (attrsLength i) = _
        refine (readInt32_congr fun a hlo hhi => ?_).trans (readInt32_toInt (memcpy mem (attrsType i) [f.type.code] 1) _ _)
        exact writeAttrs_kept fields _ _ (hkept a (Or.inl ⟨hlo, hhi⟩))
    | succ j =>
      rw [List.getElem?_cons_succ] at h
      have hrest := writeAttrs_at fields
        (writeInt32 (memcpy mem (attrsType i) [f.type.code] 1) (attrsLength i) f.len.toInt) (i + 1) (by omega) j field h
      rwa [show i + 1 + j = i + (j + 1) by omega] at hrest

/-- The numbers stay, whatever the number of fields. -/
theorem readInt32_writeAttrs {mem : Memory} {fields : List FieldMeta} (offset : Nat) (h : offset + 4 ≤ 28) :
    readInt32 (writeAttrs mem 0 fields) offset = readInt32 mem offset :=
  readInt32_congr fun a _ hhi => writeAttrs_kept fields mem 0 (Or.inl (show a < 28 by omega))

section Numbers

variable (mem : Memory) (fields : List FieldMeta) (unique : Bool) (internalMaxSize leafMaxSize : Int32)

/-- The flag is read again. -/
theorem readInt32_unique :
    decide (readInt32 (writeNumbers mem fields unique internalMaxSize leafMaxSize) 24 ≠ 0) = unique := by
  rw [writeNumbers]
  cases unique with
  | true =>
    rw [if_pos rfl, readInt32_writeInt32 (by decide) (by decide)]
    decide
  | false =>
    rw [if_neg Bool.false_ne_true, readInt32_writeInt32 (by decide) (by decide)]
    decide

theorem readInt32_attrsCount : readInt32 (writeNumbers mem fields unique internalMaxSize leafMaxSize) 16
    = (Int32.ofNat fields.length).toInt := by
  rw [writeNumbers, readInt32_writeInt32_of_disjoint (by omega), readInt32_toInt]

end Numbers

/-! ## Opening what was created -/

section Open

variable {page behind : Memory} {fields : List FieldMeta} {unique : Bool} {internalMaxSize leafMaxSize : Int32}

/-- The copy of the header agrees with the page. -/
theorem copy_eq {offset : Nat} (h : offset + 4 ≤ size) (page behind : Memory) :
    readInt32 (copyHeader page behind) offset = readInt32 page offset :=
  readInt32_congr fun a _ hhi => if_pos (by omega)

/-- **With room for all fields** the tree is opened as it was created. -/
theorem open_create (h : fields.length ≤ maxAttrs) :
    openTree (create page fields unique internalMaxSize leafMaxSize).1 behind fields
      = (create page fields unique internalMaxSize leafMaxSize).2 := by
  rw [create]
  dsimp only
  generalize (if internalMaxSize < 0 then _ else _) = internal
  generalize (if leafMaxSize < 0 then _ else _) = leaf
  have hcount : (Int32.ofNat fields.length).toInt = fields.length := by
    have h20 : fields.length ≤ 20 := h
    rw [Int32.toInt_ofNat_of_lt (by omega)]
  rw [openTree, copy_eq (by decide), copy_eq (by decide), copy_eq (by decide), copy_eq (by decide),
    copy_eq (by decide)]
  rw [readInt32_writeAttrs 24 (by decide), readInt32_unique]
  rw [readInt32_writeAttrs 16 (by decide), readInt32_attrsCount, hcount, Int.toNat_natCast]
  congr 1
  apply List.ext_getElem
  · rw [List.length_map, List.length_map, List.length_range]
  · intro i hi hi'
    rw [List.length_map] at hi'
    have hi20 : i < 20 := Nat.lt_of_lt_of_le hi' h
    obtain ⟨htype, hlen⟩ := writeAttrs_at fields (writeNumbers page fields unique internal leaf) 0
      (by rwa [Nat.zero_add]) i fields[i] (List.getElem?_eq_getElem hi')
    have hbyte : attrsType i < size := show 108 + i < 128 by omega
    have hword : attrsLength i + 4 ≤ size := show 28 + 4 * i + 4 ≤ 128 by omega
    rw [Nat.zero_add] at htype hlen
    rw [List.getElem_map, List.getElem_map, List.getElem_range, copyHeader, if_pos hbyte, htype]
    exact congrArg _ ((copy_eq hword _ _).trans hlen)

/-- **With more fields** the type of the 21st is what lies behind. -/
theorem not_open_create (h : maxAttrs < fields.length) : ∃ behind : Memory,
    openTree (create page fields unique internalMaxSize leafMaxSize).1 behind fields
      ≠ (create page fields unique internalMaxSize leafMaxSize).2 := by
  refine ⟨fun _ => fields[maxAttrs].type.code + 1, fun heq => ?_⟩
  generalize hpage : (create page fields unique internalMaxSize leafMaxSize).1 = page' at heq
  have hopened : ∀ attr ∈ (openTree page' (fun _ => fields[maxAttrs].type.code + 1) fields).attrs[maxAttrs]?,
      attr.1 = fields[maxAttrs].type.code + 1 := by
    intro attr hattr
    rw [openTree, Option.mem_def, List.getElem?_map, Option.map_eq_some_iff] at hattr
    obtain ⟨i, hi, rfl⟩ := hattr
    obtain ⟨hlt, rfl⟩ := List.getElem?_eq_some_iff.mp hi
    have hbehind : ¬ attrsType maxAttrs < size := by decide
    rw [List.getElem_range, copyHeader, if_neg hbehind]
  rw [heq] at hopened
  have hcreated : (create page fields unique internalMaxSize leafMaxSize).2.attrs[maxAttrs]?
      = some (fields[maxAttrs].type.code, fields[maxAttrs].len.toInt) := by
    show (fields.map fun field => (field.type.code, field.len.toInt))[maxAttrs]? = _
    rw [List.getElem?_map, List.getElem?_eq_getElem h, Option.map_some]
  have hcode : fields[maxAttrs].type.code = fields[maxAttrs].type.code + 1 := hopened _ hcreated
  generalize fields[maxAttrs].type = type at hcode
  cases type <;> exact absurd hcode (by decide)

/-- A header can be opened again if its fields fit into the arrays. -/
theorem open_create_iff : (∀ behind, openTree (create page fields unique internalMaxSize leafMaxSize).1 behind fields
      = (create page fields unique internalMaxSize leafMaxSize).2) ↔ fields.length ≤ maxAttrs := by
  constructor
  · intro hopen
    by_contra hmore
    obtain ⟨behind, hne⟩ := not_open_create (Nat.not_le.mp hmore)
    exact hne (hopen behind)
  · exact fun h behind => open_create h

end Open

end Miniob.Schema
