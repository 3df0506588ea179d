/-
  The entries of the index log (src/observer/storage/index/bplus_tree_log_entry.cpp), as bytes.

  A record of the log holds one entry behind the other: the kind and the page, and behind them what
  the kind needs.  Nothing says how long an entry is, so that the bytes are taken apart from the front
  (`LogEntryHandler::from_buffer`).  What an entry keeps for its rollback is not written.

  * A `Deserializer` is what lies between its position and the end of the buffer.
  * Besides the errors that are returned there are two ways to leave: the constructor of a vector
    throws when it is given a negative size, and `memcpy` behind the end of the buffer, which the
    check in front of it excludes.
  * `frameGetter` answers `from_buffer`'s question for the page of the entry.
-/
import Miniob.Common.Bytes
import Miniob.Common.Decoder
import Miniob.Storage.Types

namespace Miniob.Index.Log

open Miniob.Common Miniob.Storage

/-! ## Entries -/

/-- `LogOperation::Type`. -/
inductive LogOperation where
  | initHeaderPage
  | updateRootPage
  | setParentPage
  | leafInitEmpty
  | leafSetNextPage
  | internalInitEmpty
  | internalCreateNewRoot
  | internalUpdateKey
  | nodeInsert
  | nodeRemove
  deriving DecidableEq

namespace LogOperation

def index : LogOperation → Int32
  | initHeaderPage => 0
  | updateRootPage => 1
  | setParentPage => 2
  | leafInitEmpty => 3
  | leafSetNextPage => 4
  | internalInitEmpty => 5
  | internalCreateNewRoot => 6
  | internalUpdateKey => 7
  | nodeInsert => 8
  | nodeRemove => 9

/-- `MAX_TYPE`. -/
def maxType : Int32 := 10

def all : List LogOperation :=
  [initHeaderPage, updateRootPage, setParentPage, leafInitEmpty, leafSetNextPage, internalInitEmpty,
    internalCreateNewRoot, internalUpdateKey, nodeInsert, nodeRemove]

/-- The kind with a number. -/
def ofIndex (type : Int32) : Option LogOperation := all.find? fun op => op.index = type

/-- An operation is known by its number. -/
theorem ofIndex_eq_some {type : Int32} {op : LogOperation} :
    ofIndex type = some op ↔ op.index = type := by
  constructor
  · intro h
    have hop := List.find?_some h
    exact of_decide_eq_true hop
  · rintro rfl
    cases op <;> decide

theorem index_range (op : LogOperation) : ¬ (op.index < 0 ∨ op.index ≥ maxType) := by
  cases op <;> decide

/-- How many numbers stand in front of the size of the entry's bytes, if it has bytes. -/
def sizedFields : LogOperation → Option Nat
  | internalCreateNewRoot => some 2
  | internalUpdateKey => some 1
  | nodeInsert => some 2
  | nodeRemove => some 2
  | _ => none

end LogOperation

/-- `struct IndexFileHeader`; `attrs_type` are the bytes of the enumeration. -/
structure IndexFileHeader where
  rootPage : Int32
  internalMaxSize : Int32
  leafMaxSize : Int32
  attrLength : Int32
  attrsCount : Int32
  keyLength : Int32
  unique : Int32
  attrsLength : Fin 20 → Int32
  attrsType : Fin 20 → UInt8

namespace IndexFileHeader

/-- `sizeof(IndexFileHeader)`. -/
def headerSize : Nat := 128

def numbers (h : IndexFileHeader) : List Int32 :=
  [h.rootPage, h.internalMaxSize, h.leafMaxSize, h.attrLength, h.attrsCount, h.keyLength, h.unique]
    ++ List.ofFn h.attrsLength

/-- The bytes of the structure in memory. -/
def toBytes (h : IndexFileHeader) : List UInt8 := int32sBytes h.numbers ++ List.ofFn h.attrsType

/-- The header is read as the structure lies in memory. -/
def ofBytes (bs : List UInt8) : IndexFileHeader :=
  let xs := int32sOfBytes 27 bs
  { rootPage := xs.getD 0 0
    internalMaxSize := xs.getD 1 0
    leafMaxSize := xs.getD 2 0
    attrLength := xs.getD 3 0
    attrsCount := xs.getD 4 0
    keyLength := xs.getD 5 0
    unique := xs.getD 6 0
    attrsLength := fun i => xs.getD (7 + i) 0
    attrsType := fun i => bs.getD (108 + i) 0 }

theorem length_numbers (h : IndexFileHeader) : h.numbers.length = 27 := by
  unfold numbers
  rw [List.length_append, List.length_ofFn]
  rfl

theorem length_toBytes (h : IndexFileHeader) : h.toBytes.length = headerSize := by
  unfold toBytes
  rw [List.length_append, length_int32sBytes, length_numbers, List.length_ofFn]
  rfl

/-- A header is read as it was written. -/
theorem ofBytes_toBytes (h : IndexFileHeader) : ofBytes h.toBytes = h := by
  have hxs : int32sOfBytes 27 h.toBytes = h.numbers := by
    have := int32sOfBytes_int32sBytes h.numbers (List.ofFn h.attrsType)
    rwa [length_numbers] at this
  have hlen : (int32sBytes h.numbers).length = 108 := by rw [length_int32sBytes, length_numbers]
  have hlengths : (fun i : Fin 20 => h.numbers.getD (7 + i) 0) = h.attrsLength :=
    funext (getD_append_ofFn rfl h.attrsLength 0)
  have htypes : (fun i : Fin 20 => h.toBytes.getD (108 + i) 0) = h.attrsType :=
    funext (getD_append_ofFn hlen h.attrsType 0)
  unfold ofBytes
  rw [hxs]
  dsimp only
  rw [hlengths, htypes]
  rfl

/-- All bytes of a header are used. -/
theorem toBytes_ofBytes {bs : List UInt8} (h : bs.length = headerSize) :
    (ofBytes bs).toBytes = bs := by
  have hlen : (int32sOfBytes 27 bs).length = 7 + 20 := length_int32sOfBytes 27 bs
  have hnumbers : (ofBytes bs).numbers = int32sOfBytes 27 bs := by
    unfold numbers ofBytes
    dsimp only
    rw [ofFn_getD hlen]
    match int32sOfBytes 27 bs, hlen with
    | _ :: _ :: _ :: _ :: _ :: _ :: _ :: _, _ => rfl
  have htypes : List.ofFn (ofBytes bs).attrsType = bs.drop 108 :=
    ofFn_getD (h : bs.length = 108 + 20) 0
  unfold toBytes
  rw [hnumbers, htypes, int32sBytes_int32sOfBytes (by rw [h]; decide)]
  exact List.take_append_drop 108 bs

end IndexFileHeader

/-- What the classes derived from `LogEntryHandler` hold besides the page. -/
inductive LogBody where
  | initHeaderPage (fileHeader : IndexFileHeader)
  | updateRootPage (rootPageNum oldPageNum : Int32)
  | setParentPage (parentPageNum oldParentPageNum : Int32)
  | leafInitEmpty
  | leafSetNextPage (newPageNum oldPageNum : Int32)
  | internalInitEmpty
  | internalCreateNewRoot (firstPageNum pageNum : Int32) (key : List UInt8)
  | internalUpdateKey (index : Int32) (key oldKey : List UInt8)
  | nodeInsert (index itemNum : Int32) (items : List UInt8)
  | nodeRemove (index itemNum : Int32) (items : List UInt8)

structure LogEntryHandler where
  pageNum : Int32
  body : LogBody

/-! ## Writing -/

/-- `static_cast<int32_t>(items.size())` and the items. -/
def sizedBytes (items : List UInt8) : List UInt8 := int32Bytes (.ofNat items.length) ++ items

namespace LogBody

def operation : LogBody → LogOperation
  | initHeaderPage _ => .initHeaderPage
  | updateRootPage _ _ => .updateRootPage
  | setParentPage _ _ => .setParentPage
  | leafInitEmpty => .leafInitEmpty
  | leafSetNextPage _ _ => .leafSetNextPage
  | internalInitEmpty => .internalInitEmpty
  | internalCreateNewRoot _ _ _ => .internalCreateNewRoot
  | internalUpdateKey _ _ _ => .internalUpdateKey
  | nodeInsert _ _ _ => .nodeInsert
  | nodeRemove _ _ _ => .nodeRemove

/-- `serialize_body`. -/
def serializeBody : LogBody → List UInt8
  | initHeaderPage fileHeader => fileHeader.toBytes
  | updateRootPage rootPageNum _ => int32Bytes rootPageNum
  | setParentPage parentPageNum _ => int32Bytes parentPageNum
  | leafInitEmpty => []
  | leafSetNextPage newPageNum _ => int32Bytes newPageNum
  | internalInitEmpty => []
  | internalCreateNewRoot firstPageNum pageNum key =>
    int32Bytes firstPageNum ++ (int32Bytes pageNum ++ sizedBytes key)
  | internalUpdateKey index key _ => int32Bytes index ++ sizedBytes key
  | nodeInsert index itemNum items => int32Bytes index ++ (int32Bytes itemNum ++ sizedBytes items)
  | nodeRemove index itemNum items => int32Bytes index ++ (int32Bytes itemNum ++ sizedBytes items)

/-- The bytes whose size is written in front of them. -/
def payload : LogBody → List UInt8
  | internalCreateNewRoot _ _ key => key
  | internalUpdateKey _ key _ => key
  | nodeInsert _ _ items => items
  | nodeRemove _ _ items => items
  | _ => []

/-- The same without what is kept for the rollback: as the entry comes out of the log. -/
def logged : LogBody → LogBody
  | updateRootPage rootPageNum _ => updateRootPage rootPageNum (-1)
  | setParentPage parentPageNum _ => setParentPage parentPageNum (-1)
  | leafSetNextPage newPageNum _ => leafSetNextPage newPageNum (-1)
  | internalUpdateKey index key _ => internalUpdateKey index key []
  | body => body

end LogBody

namespace LogEntryHandler

/-- `serialize`. -/
def serialize (e : LogEntryHandler) : List UInt8 :=
  int32Bytes e.body.operation.index ++ (int32Bytes e.pageNum ++ e.body.serializeBody)

def logged (e : LogEntryHandler) : LogEntryHandler := { e with body := e.body.logged }

/-- The size of the payload is an `int32_t`. -/
def Fits (e : LogEntryHandler) : Prop := e.body.payload.length < 2 ^ 31

theorem serialize_logged (e : LogEntryHandler) : e.logged.serialize = e.serialize := by
  obtain ⟨pageNum, body⟩ := e
  cases body <;> rfl

theorem fits_logged (e : LogEntryHandler) : e.logged.Fits ↔ e.Fits := by
  obtain ⟨pageNum, body⟩ := e
  cases body <;> exact Iff.rfl

theorem logged_logged (e : LogEntryHandler) : e.logged.logged = e.logged := by
  obtain ⟨pageNum, body⟩ := e
  cases body <;> rfl

end LogEntryHandler

/-! ## Reading -/

/-- Why a call of `from_buffer` does not return an entry. -/
inductive Abort where
  /-- It returns an error. -/
  | rc (rc : RC)
  /-- `std::length_error` of a vector. -/
  | lengthError
  /-- `memcpy` reads behind the end of the buffer. -/
  | overread
  deriving DecidableEq

def Abort.Crash (a : Abort) : Prop := ∀ rc, a ≠ .rc rc

namespace Deserializer

def memcpy (size : Nat) (buffer : List UInt8) : Except Abort (List UInt8 × List UInt8) :=
  if size ≤ buffer.length then .ok (buffer.take size, buffer.drop size) else .error .overread

/-- `read`, for a caller that returns `rc` where it fails. -/
def read (rc : RC) (size : Nat) (buffer : List UInt8) : Except Abort (List UInt8 × List UInt8) :=
  if size > buffer.length then .error (.rc rc) else memcpy size buffer

def readInt32 (rc : RC) (buffer : List UInt8) : Except Abort (Int32 × List UInt8) := do
  let (bytes, buffer) ← read rc 4 buffer
  return (int32OfBytes bytes, buffer)

/-- `vector<char> items(size)`: the size is converted to `size_t`. -/
def vectorOf (size : Int32) : Except Abort Nat :=
  if size < 0 then .error .lengthError else .ok size.toInt.toNat

/-- A size, a vector of this size, and its bytes. -/
def readSized (buffer : List UInt8) : Except Abort (List UInt8 × List UInt8) := do
  let (size, buffer) ← readInt32 .internal buffer
  let size ← vectorOf size
  read .internal size buffer

end Deserializer

open Deserializer

/-- `deserialize` of each class. -/
def deserialize : LogOperation → List UInt8 → Except Abort (LogBody × List UInt8)
  | .initHeaderPage, buffer => do
    let (header, buffer) ← read .internal IndexFileHeader.headerSize buffer
    return (.initHeaderPage (.ofBytes header), buffer)
  | .updateRootPage, buffer => do
    let (rootPageNum, buffer) ← readInt32 .internal buffer
    return (.updateRootPage rootPageNum (-1), buffer)
  | .setParentPage, buffer => do
    let (parentPageNum, buffer) ← readInt32 .internal buffer
    return (.setParentPage parentPageNum (-1), buffer)
  | .leafInitEmpty, buffer => .ok (.leafInitEmpty, buffer)
  | .leafSetNextPage, buffer => do
    let (pageNum, buffer) ← readInt32 .internal buffer
    return (.leafSetNextPage pageNum (-1), buffer)
  | .internalInitEmpty, buffer => .ok (.internalInitEmpty, buffer)
  | .internalCreateNewRoot, buffer => do
    let (firstPageNum, buffer) ← readInt32 .internal buffer
    let (pageNum, buffer) ← readInt32 .internal buffer
    let (key, buffer) ← readSized buffer
    return (.internalCreateNewRoot firstPageNum pageNum key, buffer)
  | .internalUpdateKey, buffer => do
    let (index, buffer) ← readInt32 .internal buffer
    let (key, buffer) ← readSized buffer
    return (.internalUpdateKey index key [], buffer)
  | .nodeInsert, buffer => do
    let (index, buffer) ← readInt32 .internal buffer
    let (itemNum, buffer) ← readInt32 .internal buffer
    let (items, buffer) ← readSized buffer
    return (.nodeInsert index itemNum items, buffer)
  | .nodeRemove, buffer => do
    let (index, buffer) ← readInt32 .internal buffer
    let (itemNum, buffer) ← readInt32 .internal buffer
    let (items, buffer) ← readSized buffer
    return (.nodeRemove index itemNum items, buffer)

/-- `from_buffer`, behind the kind of the entry. -/
def fromBufferOf (frameGetter : Int32 → RC) (type : Int32) (buffer : List UInt8) :
    Except Abort (LogEntryHandler × List UInt8) :=
  if type < 0 ∨ type ≥ LogOperation.maxType then .error (.rc .invalidArgument)
  else do
    let (pageNum, buffer) ← readInt32 .invalidArgument buffer
    if frameGetter pageNum ≠ .success then .error (.rc (frameGetter pageNum))
    else
      match LogOperation.ofIndex type with
      | none => .error (.rc .internal)
      | some operation => do
        let (body, buffer) ← deserialize operation buffer
        return (⟨pageNum, body⟩, buffer)

/-- `LogEntryHandler::from_buffer`. -/
def fromBuffer (frameGetter : Int32 → RC) (buffer : List UInt8) :
    Except Abort (LogEntryHandler × List UInt8) := do
  let (type, buffer) ← readInt32 .invalidArgument buffer
  fromBufferOf frameGetter type buffer

/-- `fake_frame_getter`. -/
def fakeFrameGetter (_ : Int32) : RC := .success

/-- The loops over a record of the log. -/
def entriesOfBuffer (frameGetter : Int32 → RC) (buffer : List UInt8) :
    Except Abort (List LogEntryHandler × List UInt8) :=
  decodeAll (fromBuffer frameGetter) buffer

/-! ## What is read -/

/-- Reading so many bytes is decoding them. -/
theorem decodes_read (rc : RC) (size : Nat) :
    Decodes Abort.Crash (read rc size) (fun w bs => bs.length = size ∧ w = bs) fun _ => False where
  read := by
    rintro w bs t ⟨hlen, rfl⟩
    unfold Deserializer.read memcpy
    rw [if_neg (by rw [List.length_append]; omega), if_pos (by rw [List.length_append]; omega),
      List.take_left' hlen, List.drop_left' hlen]
  inv := by
    intro s bs t h
    unfold Deserializer.read memcpy at h
    split at h
    · cases h
    · rename_i hsize
      rw [if_pos (by omega)] at h
      obtain ⟨rfl, rfl⟩ := Prod.mk.inj (Except.ok.inj h)
      exact ⟨_, ⟨by rw [List.length_take]; omega, rfl⟩, (List.take_append_drop size s).symm⟩
  bad := by
    intro s
    unfold Deserializer.read memcpy
    constructor
    · rintro ⟨e, he, hcrash⟩
      split at he
      · exact hcrash rc (Except.error.inj he).symm
      · rw [if_pos (by omega)] at he
        cases he
    · exact False.elim

theorem decodes_readInt32 (rc : RC) :
    Decodes Abort.Crash (readInt32 rc) (fun w x => w = int32Bytes x) fun _ => False := by
  refine ((decodes_read rc 4).map int32OfBytes).congr (fun w x => ⟨?_, ?_⟩) fun s => Iff.rfl
  · rintro ⟨bs, ⟨hlen, rfl⟩, rfl⟩
    exact (int32Bytes_int32OfBytes hlen).symm
  · rintro rfl
    exact ⟨_, ⟨length_int32Bytes x, rfl⟩, (int32OfBytes_int32Bytes x).symm⟩

/-- The bytes behind their size. -/
theorem decodes_vector (size : Int32) :
    Decodes Abort.Crash (fun s => vectorOf size >>= fun n => read .internal n s)
      (fun w bs => 0 ≤ size ∧ bs.length = size.toInt.toNat ∧ w = bs) fun _ => size < 0 := by
  unfold vectorOf
  by_cases hneg : size < 0
  · rw [if_pos hneg]
    refine ⟨fun w bs t hw => absurd hw.1 (Int32.not_le.mpr hneg), nofun, fun s => ⟨fun _ => hneg, ?_⟩⟩
    exact fun _ => ⟨.lengthError, rfl, nofun⟩
  · rw [if_neg hneg]
    refine (decodes_read .internal size.toInt.toNat).congr (fun w bs => ⟨?_, And.right⟩) fun s => ?_
    · exact fun h => ⟨Int32.not_lt.mp hneg, h⟩
    · exact ⟨False.elim, hneg⟩

/-- A size and as many bytes; a negative size is where it breaks. -/
theorem decodes_readSized :
    Decodes Abort.Crash readSized (fun w bs => bs.length < 2 ^ 31 ∧ w = sizedBytes bs)
      fun s => ∃ size t, size < 0 ∧ s = int32Bytes size ++ t := by
  refine ((decodes_readInt32 .internal).after decodes_vector).congr (fun w bs => ⟨?_, ?_⟩) fun s => Iff.rfl
  · rintro ⟨size, w', ⟨hpos, hlen, rfl⟩, rfl⟩
    have hnonneg : 0 ≤ size.toInt := Int32.le_iff_toInt_le.mp hpos
    have hlt := size.toInt_lt
    have hsize : size = Int32.ofNat w'.length := by
      rw [← Int32.toInt_inj, Int32.toInt_ofNat_of_lt (by omega)]
      omega
    exact ⟨by omega, by rw [hsize]; rfl⟩
  · rintro ⟨hlt, rfl⟩
    have hsize : (Int32.ofNat bs.length).toInt = bs.length := Int32.toInt_ofNat_of_lt hlt
    refine ⟨_, bs, ⟨?_, ?_, rfl⟩, rfl⟩
    · rw [Int32.le_iff_toInt_le, hsize]
      exact Int.natCast_nonneg _
    · rw [hsize]
      exact (Int.toNat_natCast _).symm

/-- The body of an entry of the kind, as it comes out of the log. -/
def BodyWord (operation : LogOperation) (w : List UInt8) (body : LogBody) : Prop :=
  body.operation = operation ∧ body.logged = body ∧ body.payload.length < 2 ^ 31 ∧
    w = body.serializeBody

/-- The kind has a size, and the size is negative. -/
def NegativeSize (operation : LogOperation) (s : List UInt8) : Prop :=
  ∃ fields size t, operation.sizedFields = some fields.length ∧ size < 0 ∧
    s = int32sBytes fields ++ (int32Bytes size ++ t)

theorem not_negativeSize {operation : LogOperation} (h : operation.sizedFields = none)
    (s : List UInt8) : ¬ NegativeSize operation s :=
  fun ⟨_, _, _, hfields, _⟩ => nomatch h.symm.trans hfields

/-- With one array, it is behind the first number. -/
theorem negativeSize_one {operation : LogOperation} (h : operation.sizedFields = some 1)
    (s : List UInt8) : NegativeSize operation s ↔
      ∃ x s', (∃ size t, size < 0 ∧ s' = int32Bytes size ++ t) ∧ s = int32Bytes x ++ s' := by
  unfold NegativeSize
  constructor
  · rintro ⟨fields, size, t, hfields, hneg, rfl⟩
    match fields, Option.some.inj (h.symm.trans hfields) with
    | [x], _ => exact ⟨x, _, ⟨size, t, hneg, rfl⟩, by simp [int32sBytes]⟩
  · rintro ⟨x, s', ⟨size, t, hneg, rfl⟩, rfl⟩
    exact ⟨[x], size, t, h, hneg, by simp [int32sBytes]⟩

/-- With two numbers in front of it, it is behind both. -/
theorem negativeSize_two {operation : LogOperation} (h : operation.sizedFields = some 2)
    (s : List UInt8) : NegativeSize operation s ↔ ∃ x s', (∃ y s'', (∃ size t, size < 0 ∧
      s'' = int32Bytes size ++ t) ∧ s' = int32Bytes y ++ s'') ∧ s = int32Bytes x ++ s' := by
  unfold NegativeSize
  constructor
  · rintro ⟨fields, size, t, hfields, hneg, rfl⟩
    match fields, Option.some.inj (h.symm.trans hfields) with
    | [x, y], _ => exact ⟨x, _, ⟨y, _, ⟨size, t, hneg, rfl⟩, rfl⟩, by simp [int32sBytes]⟩
  · rintro ⟨x, s', ⟨y, s'', ⟨size, t, hneg, rfl⟩, rfl⟩, rfl⟩
    exact ⟨[x, y], size, t, h, hneg, by simp [int32sBytes]⟩

/-- A kind whose body is one page number. -/
theorem decodes_number {operation : LogOperation} {make : Int32 → LogBody}
    (hword : ∀ w body, BodyWord operation w body ↔ ∃ x, w = int32Bytes x ∧ body = make x)
    (hfields : operation.sizedFields = none) :
    Decodes Abort.Crash (fun s => readInt32 .internal s >>= fun r => .ok (make r.1, r.2))
      (BodyWord operation) (NegativeSize operation) :=
  ((decodes_readInt32 .internal).map make).congr (fun w body => (hword w body).symm)
    fun s => ⟨False.elim, not_negativeSize hfields s⟩

/-- `NormalOperationLogEntryHandler`, and with it the new root. -/
theorem decodes_twoNumbers {operation : LogOperation} {make : Int32 → Int32 → List UInt8 → LogBody}
    (hword : ∀ w body, BodyWord operation w body ↔ ∃ x y items, items.length < 2 ^ 31 ∧
      w = int32Bytes x ++ (int32Bytes y ++ sizedBytes items) ∧ body = make x y items)
    (hfields : operation.sizedFields = some 2) :
    Decodes Abort.Crash (fun s => readInt32 .internal s >>= fun r => readInt32 .internal r.2 >>= fun r' =>
      readSized r'.2 >>= fun r'' => .ok (make r.1 r'.1 r''.1, r''.2))
      (BodyWord operation) (NegativeSize operation) := by
  refine ((decodes_readInt32 .internal).after fun x => (decodes_readInt32 .internal).after fun y =>
    decodes_readSized.map (make x y)).congr (fun w body => ?_) fun s => (negativeSize_two hfields s).symm
  rw [hword]
  constructor
  · rintro ⟨x, w', ⟨y, w'', ⟨items, ⟨hlt, rfl⟩, rfl⟩, rfl⟩, rfl⟩
    exact ⟨x, y, items, hlt, rfl, rfl⟩
  · rintro ⟨x, y, items, hlt, rfl, rfl⟩
    exact ⟨x, _, ⟨y, _, ⟨items, ⟨hlt, rfl⟩, rfl⟩, rfl⟩, rfl⟩

theorem nil_fits : ([] : List UInt8).length < 2 ^ 31 := by decide

/-- One case for each operation, field by field. -/
theorem decodes_deserialize (operation : LogOperation) :
    Decodes Abort.Crash (deserialize operation) (BodyWord operation) (NegativeSize operation) := by
  cases operation with
  | initHeaderPage =>
    -- a header of fixed size; each of the others is numbers, and items behind them
    refine ((decodes_read .internal IndexFileHeader.headerSize).map fun bs =>
      LogBody.initHeaderPage (.ofBytes bs)).congr (fun w body => ⟨?_, ?_⟩) fun s =>
        ⟨False.elim, not_negativeSize rfl s⟩
    · rintro ⟨bs, ⟨hlen, rfl⟩, rfl⟩
      exact ⟨rfl, rfl, nil_fits, (IndexFileHeader.toBytes_ofBytes hlen).symm⟩
    · rintro ⟨hop, -, -, rfl⟩
      cases body with
      | initHeaderPage header =>
        exact ⟨_, ⟨header.length_toBytes, rfl⟩, by rw [IndexFileHeader.ofBytes_toBytes]⟩
      | _ => cases hop
  | updateRootPage =>
    refine @decodes_number _ (fun x => .updateRootPage x (-1)) (fun w body => ⟨?_, ?_⟩) rfl
    · rintro ⟨hop, hlogged, -, rfl⟩
      cases body with
      | updateRootPage x old => exact ⟨x, rfl, hlogged.symm⟩
      | _ => cases hop
    · rintro ⟨x, rfl, rfl⟩
      exact ⟨rfl, rfl, nil_fits, rfl⟩
  | setParentPage =>
    refine @decodes_number _ (fun x => .setParentPage x (-1)) (fun w body => ⟨?_, ?_⟩) rfl
    · rintro ⟨hop, hlogged, -, rfl⟩
      cases body with
      | setParentPage x old => exact ⟨x, rfl, hlogged.symm⟩
      | _ => cases hop
    · rintro ⟨x, rfl, rfl⟩
      exact ⟨rfl, rfl, nil_fits, rfl⟩
  | leafInitEmpty =>
    refine (Decodes.pure _).congr (fun w body => ⟨?_, ?_⟩) fun s => ⟨False.elim, not_negativeSize rfl s⟩
    · rintro ⟨rfl, rfl⟩
      exact ⟨rfl, rfl, nil_fits, rfl⟩
    · rintro ⟨hop, -, -, rfl⟩
      cases body with
      | leafInitEmpty => exact ⟨rfl, rfl⟩
      | _ => cases hop
  | leafSetNextPage =>
    refine @decodes_number _ (fun x => .leafSetNextPage x (-1)) (fun w body => ⟨?_, ?_⟩) rfl
    · rintro ⟨hop, hlogged, -, rfl⟩
      cases body with
      | leafSetNextPage x old => exact ⟨x, rfl, hlogged.symm⟩
      | _ => cases hop
    · rintro ⟨x, rfl, rfl⟩
      exact ⟨rfl, rfl, nil_fits, rfl⟩
  | internalInitEmpty =>
    refine (Decodes.pure _).congr (fun w body => ⟨?_, ?_⟩) fun s => ⟨False.elim, not_negativeSize rfl s⟩
    · rintro ⟨rfl, rfl⟩
      exact ⟨rfl, rfl, nil_fits, rfl⟩
    · rintro ⟨hop, -, -, rfl⟩
      cases body with
      | internalInitEmpty => exact ⟨rfl, rfl⟩
      | _ => cases hop
  | internalCreateNewRoot =>
    refine decodes_twoNumbers (fun w body => ⟨?_, ?_⟩) rfl
    · rintro ⟨hop, -, hlt, rfl⟩
      cases body with
      | internalCreateNewRoot x y items => exact ⟨x, y, items, hlt, rfl, rfl⟩
      | _ => cases hop
    · rintro ⟨x, y, items, hlt, rfl, rfl⟩
      exact ⟨rfl, rfl, hlt, rfl⟩
  | internalUpdateKey =>
    refine ((decodes_readInt32 .internal).after fun x => decodes_readSized.map fun key =>
      LogBody.internalUpdateKey x key []).congr (fun w body => ⟨?_, ?_⟩) fun s =>
        (negativeSize_one rfl s).symm
    · rintro ⟨x, w', ⟨key, ⟨hlt, rfl⟩, rfl⟩, rfl⟩
      exact ⟨rfl, rfl, hlt, rfl⟩
    · rintro ⟨hop, hlogged, hlt, rfl⟩
      cases body with
      | internalUpdateKey x key old => exact ⟨x, _, ⟨key, ⟨hlt, rfl⟩, hlogged.symm⟩, rfl⟩
      | _ => cases hop
  | nodeInsert =>
    refine decodes_twoNumbers (fun w body => ⟨?_, ?_⟩) rfl
    · rintro ⟨hop, -, hlt, rfl⟩
      cases body with
      | nodeInsert x y items => exact ⟨x, y, items, hlt, rfl, rfl⟩
      | _ => cases hop
    · rintro ⟨x, y, items, hlt, rfl, rfl⟩
      exact ⟨rfl, rfl, hlt, rfl⟩
  | nodeRemove =>
    refine decodes_twoNumbers (fun w body => ⟨?_, ?_⟩) rfl
    · rintro ⟨hop, -, hlt, rfl⟩
      cases body with
      | nodeRemove x y items => exact ⟨x, y, items, hlt, rfl, rfl⟩
      | _ => cases hop
    · rintro ⟨x, y, items, hlt, rfl, rfl⟩
      exact ⟨rfl, rfl, hlt, rfl⟩

/-- An entry as it comes out of the log. -/
def EntryWord (frameGetter : Int32 → RC) (w : List UInt8) (e : LogEntryHandler) : Prop :=
  frameGetter e.pageNum = .success ∧ e.logged = e ∧ e.Fits ∧ w = e.serialize

/-- The beginning of an entry with a negative size. -/
def BadEntry (frameGetter : Int32 → RC) (s : List UInt8) : Prop :=
  ∃ (operation : LogOperation) (pageNum : Int32) (t : List UInt8), frameGetter pageNum = .success ∧
    NegativeSize operation t ∧ s = int32Bytes operation.index ++ (int32Bytes pageNum ++ t)

theorem decodes_fail {α : Type} (rc : RC) : Decodes Abort.Crash
    (fun _ : List UInt8 => (.error (.rc rc) : Except Abort (α × List UInt8)))
    (fun _ _ => False) fun _ => False :=
  Decodes.fail fun h => h rc rfl

/-- Behind the page of an entry. -/
theorem decodes_body (frameGetter : Int32 → RC) (type pageNum : Int32) :
    Decodes Abort.Crash (fun s : List UInt8 =>
      if frameGetter pageNum ≠ .success then .error (.rc (frameGetter pageNum))
      else
        match LogOperation.ofIndex type with
        | none => .error (.rc .internal)
        | some operation => do
          let (body, buffer) ← deserialize operation s
          return ((⟨pageNum, body⟩ : LogEntryHandler), buffer))
      (fun w e => frameGetter pageNum = .success ∧ ∃ operation body, operation.index = type ∧
        BodyWord operation w body ∧ e = ⟨pageNum, body⟩)
      fun s => frameGetter pageNum = .success ∧ ∃ operation : LogOperation, operation.index = type ∧
        NegativeSize operation s := by
  by_cases hget : frameGetter pageNum = .success
  · simp only [hget, ne_eq, not_true_eq_false, if_false, true_and]
    cases hop : LogOperation.ofIndex type with
    | none =>
      have hno : ∀ operation : LogOperation, operation.index ≠ type := fun operation h =>
        nomatch hop.symm.trans (LogOperation.ofIndex_eq_some.mpr h)
      refine (decodes_fail .internal).congr (fun w e => ⟨False.elim, ?_⟩) fun s => ⟨False.elim, ?_⟩
      · exact fun ⟨operation, _, h, _⟩ => hno operation h
      · exact fun ⟨operation, h, _⟩ => hno operation h
    | some operation =>
      have hop' := LogOperation.ofIndex_eq_some.mp hop
      -- the kind is the only one with this number
      have hsame : ∀ operation' : LogOperation, operation'.index = type → operation' = operation :=
        fun operation' h => Option.some.inj ((LogOperation.ofIndex_eq_some.mpr h).symm.trans hop)
      refine ((decodes_deserialize operation).map (LogEntryHandler.mk pageNum)).congr
        (fun w e => ⟨?_, ?_⟩) fun s => ⟨fun h => ⟨operation, hop', h⟩, ?_⟩
      · rintro ⟨body, hbody, rfl⟩
        exact ⟨operation, body, hop', hbody, rfl⟩
      · rintro ⟨operation', body, h, hbody, rfl⟩
        obtain rfl := hsame operation' h
        exact ⟨body, hbody, rfl⟩
      · rintro ⟨operation', h, hbad⟩
        obtain rfl := hsame operation' h
        exact hbad
  · simp only [ne_eq, hget, not_false_eq_true, if_true]
    exact (decodes_fail _).congr (fun w e => ⟨False.elim, fun h => h.1⟩)
      fun s => ⟨False.elim, fun h => h.1⟩

/-- An entry is its page number and then its body. -/
theorem decodes_fromBufferOf (frameGetter : Int32 → RC) (type : Int32) :
    Decodes Abort.Crash (fromBufferOf frameGetter type)
      (fun w e => e.body.operation.index = type ∧ frameGetter e.pageNum = .success ∧ e.logged = e ∧
        e.Fits ∧ w = int32Bytes e.pageNum ++ e.body.serializeBody)
      fun s => ∃ (operation : LogOperation) (pageNum : Int32) (t : List UInt8), operation.index = type ∧
        frameGetter pageNum = .success ∧ NegativeSize operation t ∧ s = int32Bytes pageNum ++ t := by
  unfold fromBufferOf
  by_cases hrange : type < 0 ∨ type ≥ LogOperation.maxType
  · simp only [if_pos hrange]
    refine (decodes_fail .invalidArgument).congr (fun w e => ⟨False.elim, ?_⟩) fun s => ⟨False.elim, ?_⟩
    · rintro ⟨rfl, -⟩
      exact e.body.operation.index_range hrange
    · rintro ⟨operation, -, -, rfl, -⟩
      exact operation.index_range hrange
  · simp only [if_neg hrange]
    refine ((decodes_readInt32 .invalidArgument).after (decodes_body frameGetter type)).congr
      (fun w e => ⟨?_, ?_⟩) fun s => ⟨?_, ?_⟩
    · rintro ⟨pageNum, w', ⟨hget, operation, body, rfl, ⟨rfl, hlogged, hlt, rfl⟩, rfl⟩, rfl⟩
      exact ⟨rfl, hget, congrArg (LogEntryHandler.mk pageNum) hlogged, hlt, rfl⟩
    · rintro ⟨rfl, hget, hlogged, hlt, rfl⟩
      exact ⟨e.pageNum, _, ⟨hget, _, e.body, rfl,
        ⟨rfl, congrArg LogEntryHandler.body hlogged, hlt, rfl⟩, rfl⟩, rfl⟩
    · rintro ⟨pageNum, t, ⟨hget, operation, hop, hbad⟩, rfl⟩
      exact ⟨operation, pageNum, t, hop, hget, hbad, rfl⟩
    · rintro ⟨operation, pageNum, t, hop, hget, hbad, rfl⟩
      exact ⟨pageNum, t, ⟨hget, operation, hop, hbad⟩, rfl⟩

/-- **One entry.** -/
theorem decodes_fromBuffer (frameGetter : Int32 → RC) :
    Decodes Abort.Crash (fromBuffer frameGetter) (EntryWord frameGetter) (BadEntry frameGetter) := by
  refine ((decodes_readInt32 .invalidArgument).after (decodes_fromBufferOf frameGetter)).congr
    (fun w e => ⟨?_, ?_⟩) fun s => ⟨?_, ?_⟩
  · rintro ⟨type, w', ⟨rfl, hget, hlogged, hlt, rfl⟩, rfl⟩
    exact ⟨hget, hlogged, hlt, rfl⟩
  · rintro ⟨hget, hlogged, hlt, rfl⟩
    exact ⟨_, _, ⟨rfl, hget, hlogged, hlt, rfl⟩, rfl⟩
  · rintro ⟨type, t, ⟨operation, pageNum, t', rfl, hget, hbad, rfl⟩, rfl⟩
    exact ⟨operation, pageNum, t', hget, hbad, rfl⟩
  · rintro ⟨operation, pageNum, t', hget, hbad, rfl⟩
    exact ⟨_, _, ⟨operation, pageNum, t', rfl, hget, hbad, rfl⟩, rfl⟩

/-- No entry is empty. -/
theorem EntryWord.ne_nil {frameGetter : Int32 → RC} {w : List UInt8} {e : LogEntryHandler}
    (h : EntryWord frameGetter w e) : w ≠ [] := by
  obtain ⟨-, -, -, rfl⟩ := h
  intro hnil
  have := congrArg List.length hnil
  unfold LogEntryHandler.serialize at this
  rw [List.length_append, length_int32Bytes] at this
  exact absurd this (by show 4 + _ ≠ 0; omega)

/-! ## The codec -/

/-- The bytes of a list of entries. -/
def serializeAll (es : List LogEntryHandler) : List UInt8 := es.flatMap LogEntryHandler.serialize

/-- A log that can be decoded is one that was serialized, up to the logged fields. -/
theorem words_iff {frameGetter : Int32 → RC} {w : List UInt8} {es : List LogEntryHandler} :
    Words (EntryWord frameGetter) w es ↔ w = serializeAll es ∧
      ∀ e ∈ es, frameGetter e.pageNum = .success ∧ e.logged = e ∧ e.Fits := by
  constructor
  · intro h
    induction h with
    | nil => exact ⟨rfl, by simp⟩
    | cons hw _ ih =>
      obtain ⟨hget, hlogged, hfits, rfl⟩ := hw
      obtain ⟨rfl, hall⟩ := ih
      refine ⟨List.flatMap_cons.symm, fun e he => ?_⟩
      rcases List.mem_cons.mp he with rfl | he
      · exact ⟨hget, hlogged, hfits⟩
      · exact hall e he
  · rintro ⟨rfl, hall⟩
    induction es with
    | nil => exact .nil
    | cons e es ih =>
      obtain ⟨hget, hlogged, hfits⟩ := hall e (by simp)
      show Words _ (List.flatMap _ (e :: es)) _
      rw [List.flatMap_cons]
      exact .cons ⟨hget, hlogged, hfits, rfl⟩ (ih fun e' he' => hall e' (List.mem_cons_of_mem e he'))

theorem serializeAll_logged (es : List LogEntryHandler) :
    serializeAll (es.map LogEntryHandler.logged) = serializeAll es := by
  induction es with
  | nil => rfl
  | cons e es ih =>
    unfold serializeAll at ih ⊢
    rw [List.map_cons, List.flatMap_cons, List.flatMap_cons, LogEntryHandler.serialize_logged, ih]

/-- The entries come back from their bytes, and no byte is left. -/
def RoundTrips (es : List LogEntryHandler) : Prop :=
  entriesOfBuffer fakeFrameGetter (serializeAll es) = .ok (es.map LogEntryHandler.logged, [])

/-- Entries come back, or an error is returned. -/
def Answers (frameGetter : Int32 → RC) (buffer : List UInt8) : Prop :=
  ¬ Crashes Abort.Crash (entriesOfBuffer frameGetter buffer)

/-- Behind some whole entries there is the beginning of an entry with a negative size. -/
def HasNegativeSize (frameGetter : Int32 → RC) (buffer : List UInt8) : Prop :=
  ∃ es s, (∀ e ∈ es, frameGetter e.pageNum = .success ∧ e.logged = e ∧ e.Fits) ∧
    BadEntry frameGetter s ∧ buffer = serializeAll es ++ s

/-- What does not fit is what does not come back. -/
theorem roundTrips_iff (es : List LogEntryHandler) : RoundTrips es ↔ ∀ e ∈ es, e.Fits := by
  unfold RoundTrips entriesOfBuffer
  rw [decodeAll_eq_ok (decodes_fromBuffer fakeFrameGetter) fun w e => EntryWord.ne_nil, words_iff,
    serializeAll_logged]
  constructor
  · rintro ⟨⟨-, hall⟩, -⟩ e he
    exact e.fits_logged.mp (hall e.logged (List.mem_map_of_mem he)).2.2
  · intro hfits
    refine ⟨⟨rfl, fun e' he' => ?_⟩, rfl⟩
    obtain ⟨e, he, rfl⟩ := List.mem_map.mp he'
    exact ⟨rfl, e.logged_logged, e.fits_logged.mpr (hfits e he)⟩

theorem badEntry_ne_nil {frameGetter : Int32 → RC} {s : List UInt8} (h : BadEntry frameGetter s) :
    s ≠ [] := by
  obtain ⟨operation, pageNum, t, -, -, rfl⟩ := h
  intro hnil
  have := congrArg List.length hnil
  rw [List.length_append, length_int32Bytes] at this
  exact absurd this (by show 4 + _ ≠ 0; omega)

/-- The reader answers unless it meets a negative size. -/
theorem answers_iff (frameGetter : Int32 → RC) (buffer : List UInt8) :
    Answers frameGetter buffer ↔ ¬ HasNegativeSize frameGetter buffer := by
  unfold Answers entriesOfBuffer HasNegativeSize
  rw [decodeAll_crashes (decodes_fromBuffer frameGetter) fun w e => EntryWord.ne_nil]
  refine not_congr ⟨?_, ?_⟩
  · rintro ⟨w, es, s, hw, hbad, -, rfl⟩
    obtain ⟨rfl, hall⟩ := words_iff.mp hw
    exact ⟨es, s, hall, hbad, rfl⟩
  · rintro ⟨es, s, hall, hbad, rfl⟩
    exact ⟨_, es, s, words_iff.mpr ⟨rfl, hall⟩, hbad, badEntry_ne_nil hbad, rfl⟩

/-- **Headline.**  A list of entries comes back from its bytes exactly if the sizes of all payloads fit
    into the field for them; and a buffer is answered exactly if no entry in it has a negative
    size. -/
theorem log_codec_iff (es : List LogEntryHandler) (frameGetter : Int32 → RC)
    (buffer : List UInt8) :
    (RoundTrips es ↔ ∀ e ∈ es, e.Fits) ∧
      (Answers frameGetter buffer ↔ ¬ HasNegativeSize frameGetter buffer) :=
  ⟨roundTrips_iff es, answers_iff frameGetter buffer⟩

/-- A NODE_INSERT entry for page 1 whose size is -1: the constructor of the vector throws. -/
theorem negative_item_bytes_throws :
    ¬ ((∀ es, RoundTrips es) ∧ ∀ frameGetter buffer, Answers frameGetter buffer) := by
  rintro ⟨-, h⟩
  refine h fakeFrameGetter ([8, 0, 0, 0] ++ ([1, 0, 0, 0] ++ ([0, 0, 0, 0] ++ ([0, 0, 0, 0] ++
    [255, 255, 255, 255])))) ⟨.lengthError, ?_, nofun⟩
  rfl

end Miniob.Index.Log
