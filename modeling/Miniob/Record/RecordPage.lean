/-
  A page of a record file in the row format (`RowRecordPageHandler` in
  src/observer/storage/record/record_manager.cpp).

  A page is a header, a bitmap and an array of slots of one size.  The header is kept as numbers, the
  rest as the bytes of the frame, so that a bit and a byte of a record may be the same byte if a slot
  number is too large.  `none` as the outcome of an operation is behaviour C++ does not define: the
  bitmap is read in front of the page's bytes (or shifted by a negative number) or behind them.

  `lookup` is what the page stores under a slot number.  Each operation has one lemma that says what
  it answers and what it does to `lookup`, on pages that are laid out as `init_empty_page` does it
  (`PageOk`).
-/
import Miniob.Common.Bitmap
import Miniob.Storage.Types

namespace Miniob.Record

open Miniob.Common Miniob.Common.Memory Miniob.Storage

/-! ## Layout -/

/-- `PAGE_HEADER_SIZE`: seven `int32_t`. -/
def pageHeaderSize : Nat := 28

def align8 (size : Nat) : Nat := (size + 7) / 8 * 8

/-- `page_record_capacity`.  The division is made in `double`; the divisor is a multiple of 1/8, so
    that rounding never carries the quotient over a whole number. -/
def pageRecordCapacity (pageSize recordSize fixedSize : Nat) : Nat :=
  (pageSize - pageHeaderSize - fixedSize - 1) * 8 / (recordSize * 8 + 1)

def pageBitmapSize (recordCapacity : Nat) : Nat := (recordCapacity + 7) / 8

/-- `fix_record_capacity`: as many records as end within the page. -/
def fixRecordCapacity (dataOffset recordSize : Nat) : Nat → Nat
  | 0 => 0
  | recordCapacity + 1 =>
    if dataOffset + (recordCapacity + 1) * recordSize > bpPageDataSize then
      fixRecordCapacity dataOffset recordSize recordCapacity
    else recordCapacity + 1

/-- `struct PageHeader`, but for the column offset. -/
structure PageHeader where
  recordNum : Int
  columnNum : Nat
  recordRealSize : Nat
  recordSize : Nat
  recordCapacity : Nat
  colIdxOffset : Nat
  dataOffset : Nat
  deriving DecidableEq, Repr

/-- The header that `init_empty_page` makes.  Only the PAX format has a column index. -/
def initHeader (recordSize columnNum : Nat) : PageHeader :=
  let size := align8 recordSize
  let recordCapacity := pageRecordCapacity bpPageDataSize size (columnNum * 4)
  let colIdxOffset := align8 (pageHeaderSize + pageBitmapSize recordCapacity)
  let dataOffset := align8 (pageHeaderSize + pageBitmapSize recordCapacity) + columnNum * 4
  { recordNum := 0
    columnNum
    recordRealSize := recordSize
    recordSize := size
    recordCapacity := fixRecordCapacity dataOffset size recordCapacity
    colIdxOffset
    dataOffset }

structure RecordPage where
  header : PageHeader
  /-- `frame_->data()`. -/
  mem : Memory

namespace RecordPage

variable (page : RecordPage)

/-- `bitmap_` with `record_capacity` bits. -/
def bitmap : Bitmap := ⟨pageHeaderSize, page.header.recordCapacity⟩

/-- `get_record_data`. -/
def recordData (slotNum : Nat) : Nat := page.header.dataOffset + page.header.recordSize * slotNum

/-- The bit of a slot; `none` if it is not in a byte of the page. -/
def getBit (slotNum : Int) : Option Bool :=
  if 0 ≤ slotNum ∧ pageHeaderSize + slotNum.toNat / 8 < bpPageDataSize then
    some (page.bitmap.getBit page.mem slotNum.toNat)
  else none

def isFull : Bool := page.header.recordNum ≥ page.header.recordCapacity

/-- `init_empty_page` of a page that was just allocated, in the row format. -/
def initEmptyPage (recordSize : Nat) : RecordPage where
  header := initHeader recordSize 0
  mem := memset (fun _ => 0) pageHeaderSize 0 (pageBitmapSize (initHeader recordSize 0).recordCapacity)

/-! ## Operations -/

/-- Copy a record into its slot. -/
def setRecord (slotNum : Nat) (data : List UInt8) : RecordPage :=
  { page with
    mem := memcpy page.mem (page.recordData slotNum) data page.header.recordRealSize }

/-- Set a bit and count it. -/
def occupy (slotNum : Nat) : RecordPage where
  header := { page.header with recordNum := page.header.recordNum + 1 }
  mem := page.bitmap.setBit page.mem slotNum

/-- Clear a bit and count it. -/
def vacate (slotNum : Nat) : RecordPage where
  header := { page.header with recordNum := page.header.recordNum - 1 }
  mem := page.bitmap.clearBit page.mem slotNum

/-- `insert_record`, with the slot number it returns. -/
def insertRecord (data : List UInt8) : Option (RC × Option Nat × RecordPage) :=
  if page.header.recordNum = page.header.recordCapacity then some (.recordNomem, none, page)
  else
    match page.bitmap.nextUnsettedBit page.mem 0 with
    | none => none  -- `set_bit(-1)`
    | some index => some (.success, some index, (page.occupy index).setRecord index data)

/-- `recover_insert_record`: the slot is given by the log. -/
def recoverInsertRecord (data : List UInt8) (slotNum : Int) : Option (RC × RecordPage) :=
  if slotNum ≥ page.header.recordCapacity then some (.recordInvalidRid, page)
  else
    match page.getBit slotNum with
    | none => none
    | some true => some (.success, page.setRecord slotNum.toNat data)
    | some false => some (.success, (page.occupy slotNum.toNat).setRecord slotNum.toNat data)

/-- `delete_record`: the slot number is not compared with `record_capacity`. -/
def deleteRecord (slotNum : Int) : Option (RC × RecordPage) :=
  match page.getBit slotNum with
  | none => none
  | some true => some (.success, page.vacate slotNum.toNat)
  | some false => some (.recordNotExist, page)

/-- `update_record`: the slot has to be taken. -/
def updateRecord (slotNum : Int) (data : List UInt8) : Option (RC × RecordPage) :=
  if slotNum ≥ page.header.recordCapacity then some (.invalidArgument, page)
  else
    match page.getBit slotNum with
    | none => none
    | some true => some (.success, page.setRecord slotNum.toNat data)
    | some false => some (.recordNotExist, page)

/-- `get_record`: the slot has to be taken. -/
def getRecord (slotNum : Int) : Option (RC × List UInt8) :=
  if slotNum ≥ page.header.recordCapacity then some (.recordInvalidRid, [])
  else
    match page.getBit slotNum with
    | none => none
    | some false => some (.recordNotExist, [])
    | some true =>
      some (.success, load page.mem (page.recordData slotNum.toNat) page.header.recordRealSize)

/-! ## What is stored under a slot number -/

def lookup (slotNum : Int) : Option (List UInt8) :=
  if 0 ≤ slotNum ∧ slotNum < page.header.recordCapacity ∧
      page.bitmap.getBit page.mem slotNum.toNat = true then
    some (load page.mem (page.recordData slotNum.toNat) page.header.recordRealSize)
  else none

end RecordPage

/-- A page for records of `n` bytes whose records lie behind the bitmap and within the page, and
    whose number of records is the number of bits that are set. -/
structure PageOk (n : Nat) (page : RecordPage) : Prop where
  /-- Records are as long as the page was made for. -/
  realSize : page.header.recordRealSize = n
  fits : n ≤ page.header.recordSize
  /-- The bitmap ends before the records begin. -/
  behind : pageHeaderSize + pageBitmapSize page.header.recordCapacity ≤ page.header.dataOffset
  /-- The last record ends within the page. -/
  within : page.header.dataOffset + page.header.recordCapacity * page.header.recordSize
    ≤ bpPageDataSize
  /-- `record_num` is the number of slots in use. -/
  counted : page.header.recordNum = page.bitmap.setBits page.mem

/-! ## The layout of a new page -/

/-- The capacity is only made smaller. -/
theorem fixRecordCapacity_le (dataOffset recordSize recordCapacity : Nat) :
    fixRecordCapacity dataOffset recordSize recordCapacity ≤ recordCapacity := by
  induction recordCapacity with
  | zero => exact Nat.le_refl 0
  | succ c ih =>
    rw [fixRecordCapacity]
    split
    · exact Nat.le_succ_of_le ih
    · exact Nat.le_refl _

/-- The loop stops: no record at all would end in front of the first one. -/
theorem fixRecordCapacity_within {dataOffset : Nat} (h : dataOffset ≤ bpPageDataSize)
    (recordSize recordCapacity : Nat) :
    dataOffset + fixRecordCapacity dataOffset recordSize recordCapacity * recordSize
      ≤ bpPageDataSize := by
  induction recordCapacity with
  | zero => simpa [fixRecordCapacity] using h
  | succ c ih =>
    rw [fixRecordCapacity]
    split
    · exact ih
    · omega

/-- The bitmap of the most records a page may have fits into it. -/
theorem pageBitmapSize_le (recordSize : Nat) :
    align8 (pageHeaderSize + pageBitmapSize (pageRecordCapacity bpPageDataSize recordSize 0))
      ≤ bpPageDataSize := by
  have hcap : pageRecordCapacity bpPageDataSize recordSize 0 ≤ 524243 * 8 := by
    unfold pageRecordCapacity
    exact Nat.le_trans (Nat.div_le_self _ _) (Nat.le_refl _)
  generalize pageRecordCapacity bpPageDataSize recordSize 0 = recordCapacity at hcap ⊢
  unfold align8 pageBitmapSize pageHeaderSize bpPageDataSize
  omega

theorem le_align8 (size : Nat) : size ≤ align8 size := by
  unfold align8
  omega

/-- In zeroed memory no slot is taken. -/
theorem getBit_memset_zero (b : Bitmap) (dst n index : Nat) :
    b.getBit (memset (fun _ => 0) dst 0 n) index = false := by
  have hzero : memset (fun _ => 0) dst 0 n (b.bitmap + index / 8) = 0 := by
    unfold memset
    split <;> rfl
  unfold Bitmap.getBit testBit
  rw [hzero]
  simp

/-- A new page keeps the invariant. -/
theorem initEmptyPage_ok (n : Nat) : PageOk n (.initEmptyPage n) where
  realSize := rfl
  fits := le_align8 n
  behind := by
    have hle := fixRecordCapacity_le (align8 (pageHeaderSize +
      pageBitmapSize (pageRecordCapacity bpPageDataSize (align8 n) 0)) + 0 * 4) (align8 n)
      (pageRecordCapacity bpPageDataSize (align8 n) 0)
    have halign := le_align8 (pageHeaderSize +
      pageBitmapSize (pageRecordCapacity bpPageDataSize (align8 n) 0))
    have hbytes := Nat.div_le_div_right (c := 8) (Nat.add_le_add_right hle 7)
    exact Nat.le_trans (Nat.add_le_add_left hbytes _) halign
  within := fixRecordCapacity_within (pageBitmapSize_le (align8 n)) _ _
  counted := by
    refine (congrArg Nat.cast (?_ : Bitmap.setBits _ _ = 0)).symm
    refine List.countP_eq_zero.mpr fun i _ => ?_
    rw [RecordPage.initEmptyPage, getBit_memset_zero]
    simp

theorem initEmptyPage_lookup (n : Nat) (slotNum : Int) :
    (RecordPage.initEmptyPage n).lookup slotNum = none := by
  refine if_neg fun h => ?_
  obtain ⟨-, -, hbit⟩ := h
  rw [RecordPage.initEmptyPage, getBit_memset_zero] at hbit
  cases hbit

/-! ## Bits and records keep out of each other's way -/

namespace PageOk

variable {n : Nat} {page : RecordPage} {data : List UInt8} {i : Nat} {slotNum : Int}

theorem dataOffset_le (h : PageOk n page) : page.header.dataOffset ≤ bpPageDataSize :=
  Nat.le_trans (Nat.le_add_right _ _) h.within

/-- The byte of a bit of the bitmap lies in front of the records. -/
theorem byte_lt (h : PageOk n page) (hi : i < page.header.recordCapacity) :
    pageHeaderSize + i / 8 < page.header.dataOffset := by
  have hbehind := h.behind
  unfold pageBitmapSize at hbehind
  omega

theorem getBit_eq (h : PageOk n page) (h0 : 0 ≤ slotNum)
    (hlt : slotNum < page.header.recordCapacity) :
    page.getBit slotNum = some (page.bitmap.getBit page.mem slotNum.toNat) := by
  refine if_pos ⟨h0, ?_⟩
  have hbyte := h.byte_lt (i := slotNum.toNat) (by omega)
  have hoff := h.dataOffset_le
  omega

/-- Two slots do not overlap. -/
theorem disjoint (h : PageOk n page) {j : Nat} (hne : j ≠ i) :
    page.recordData j + n ≤ page.recordData i ∨ page.recordData i + n ≤ page.recordData j := by
  have hfits := h.fits
  unfold RecordPage.recordData
  rcases Nat.lt_or_gt_of_ne hne with hlt | hlt
  · have hmul := Nat.mul_le_mul_left page.header.recordSize (Nat.succ_le_of_lt hlt)
    rw [Nat.mul_succ] at hmul
    exact Or.inl (by omega)
  · have hmul := Nat.mul_le_mul_left page.header.recordSize (Nat.succ_le_of_lt hlt)
    rw [Nat.mul_succ] at hmul
    exact Or.inr (by omega)

theorem getBit_setRecord (h : PageOk n page) {j : Nat} (hj : j < page.header.recordCapacity) :
    page.bitmap.getBit (page.setRecord i data).mem j = page.bitmap.getBit page.mem j := by
  refine Bitmap.getBit_congr (memcpy_of_outside (Or.inl ?_))
  have hbyte := h.byte_lt hj
  unfold RecordPage.recordData
  exact Nat.lt_of_lt_of_le hbyte (Nat.le_add_right _ _)

/-- Writing a record keeps the bitmap and the header. -/
theorem setRecord (h : PageOk n page) : PageOk n (page.setRecord i data) where
  realSize := h.realSize
  fits := h.fits
  behind := h.behind
  within := h.within
  counted := by
    refine h.counted.trans (congrArg Nat.cast (Bitmap.setBits_congr fun j hj => ?_))
    exact (h.getBit_setRecord hj).symm

/-- A record written to a slot that is taken. -/
theorem lookup_setRecord (h : PageOk n page) (hi : i < page.header.recordCapacity)
    (hset : page.bitmap.getBit page.mem i = true) (hlen : data.length = n) :
    (page.setRecord i data).lookup slotNum = if slotNum = i then some data else page.lookup slotNum := by
  unfold RecordPage.lookup
  by_cases hin : 0 ≤ slotNum ∧ slotNum < page.header.recordCapacity
  · have hbit : (page.setRecord i data).bitmap.getBit (page.setRecord i data).mem slotNum.toNat
        = page.bitmap.getBit page.mem slotNum.toNat := h.getBit_setRecord (by omega)
    rw [hbit]
    by_cases hs : slotNum = i
    · subst hs
      rw [if_pos rfl, if_pos ⟨hin.1, hin.2, hset⟩]
      refine congrArg some ?_
      show load (memcpy page.mem (page.recordData i) data page.header.recordRealSize)
        (page.recordData i) page.header.recordRealSize = data
      rw [h.realSize, ← hlen, load_memcpy_self]
    · rw [if_neg hs]
      refine if_congr Iff.rfl (congrArg some ?_) rfl
      show load (memcpy page.mem (page.recordData i) data page.header.recordRealSize)
        (page.recordData slotNum.toNat) page.header.recordRealSize = _
      rw [h.realSize]
      exact load_memcpy_of_disjoint (h.disjoint (by omega))
  · have hs : slotNum ≠ i := by omega
    rw [if_neg hs]
    refine (if_neg fun hcon => hin ⟨hcon.1, hcon.2.1⟩).trans (Eq.symm (if_neg fun hcon => ?_))
    exact hin ⟨hcon.1, hcon.2.1⟩

/-- A record is not touched by a write to the bitmap. -/
theorem load_recordData (h : PageOk n page) {mem : Memory} (hi : i < page.header.recordCapacity)
    (hmem : ∀ a, a ≠ pageHeaderSize + i / 8 → mem a = page.mem a) (slotNum : Nat) (len : Nat) :
    load mem (page.recordData slotNum) len = load page.mem (page.recordData slotNum) len := by
  refine load_congr fun a hle _ => hmem a ?_
  have hbyte := h.byte_lt hi
  unfold RecordPage.recordData at hle
  omega

/-- A slot that was free is taken, and counted. -/
theorem occupy (h : PageOk n page) (hi : i < page.header.recordCapacity)
    (hclear : page.bitmap.getBit page.mem i = false) : PageOk n (page.occupy i) where
  realSize := h.realSize
  fits := h.fits
  behind := h.behind
  within := h.within
  counted := by
    have hcount := Bitmap.setBits_setBit (b := page.bitmap) hi hclear
    show page.header.recordNum + 1 = ((page.bitmap.setBits (page.bitmap.setBit page.mem i) : Nat) : Int)
    rw [hcount, h.counted]
    rfl

/-- A slot that was taken is free, and counted. -/
theorem vacate (h : PageOk n page) (hi : i < page.header.recordCapacity)
    (hset : page.bitmap.getBit page.mem i = true) : PageOk n (page.vacate i) where
  realSize := h.realSize
  fits := h.fits
  behind := h.behind
  within := h.within
  counted := by
    have hcount := Bitmap.setBits_clearBit (b := page.bitmap) hi hset
    show page.header.recordNum - 1 = ((page.bitmap.setBits (page.bitmap.clearBit page.mem i) : Nat) : Int)
    rw [h.counted, hcount]
    omega

theorem getBit_occupy (j : Nat) : (page.occupy i).bitmap.getBit (page.occupy i).mem j
    = (decide (j = i) || page.bitmap.getBit page.mem j) :=
  Bitmap.getBit_setBit (b := page.bitmap) i j

theorem getBit_vacate (j : Nat) : (page.vacate i).bitmap.getBit (page.vacate i).mem j
    = (!decide (j = i) && page.bitmap.getBit page.mem j) :=
  Bitmap.getBit_clearBit (b := page.bitmap) i j

/-- The other slots of a page in which a slot is taken. -/
theorem lookup_occupy (h : PageOk n page) (hi : i < page.header.recordCapacity) (hs : slotNum ≠ i) :
    (page.occupy i).lookup slotNum = page.lookup slotNum := by
  unfold RecordPage.lookup
  by_cases hin : 0 ≤ slotNum ∧ slotNum < page.header.recordCapacity
  · have hne : slotNum.toNat ≠ i := by omega
    rw [getBit_occupy, decide_eq_false hne, Bool.false_or]
    refine if_congr Iff.rfl (congrArg some ?_) rfl
    exact h.load_recordData hi (fun a ha => Bitmap.setBit_of_outside ha) _ _
  · refine (if_neg fun hcon => hin ⟨hcon.1, hcon.2.1⟩).trans (Eq.symm (if_neg fun hcon => ?_))
    exact hin ⟨hcon.1, hcon.2.1⟩

/-- Only the record of this slot is gone. -/
theorem lookup_vacate (h : PageOk n page) (hi : i < page.header.recordCapacity) :
    (page.vacate i).lookup slotNum = if slotNum = i then none else page.lookup slotNum := by
  unfold RecordPage.lookup
  by_cases hin : 0 ≤ slotNum ∧ slotNum < page.header.recordCapacity
  · rw [getBit_vacate]
    by_cases hs : slotNum = i
    · subst hs
      rw [if_pos rfl]
      refine if_neg fun hcon => ?_
      have hbit := hcon.2.2
      simp at hbit
    · have hne : slotNum.toNat ≠ i := by omega
      rw [if_neg hs, decide_eq_false hne, Bool.not_false, Bool.true_and]
      refine if_congr Iff.rfl (congrArg some ?_) rfl
      exact h.load_recordData hi (fun a ha => Bitmap.clearBit_of_outside ha) _ _
  · have hs : slotNum ≠ i := by omega
    rw [if_neg hs]
    refine (if_neg fun hcon => hin ⟨hcon.1, hcon.2.1⟩).trans (Eq.symm (if_neg fun hcon => ?_))
    exact hin ⟨hcon.1, hcon.2.1⟩

/-- A free slot is taken and written. -/
theorem lookup_insert (h : PageOk n page) (hi : i < page.header.recordCapacity)
    (hclear : page.bitmap.getBit page.mem i = false) (hlen : data.length = n) :
    ((page.occupy i).setRecord i data).lookup slotNum
      = if slotNum = i then some data else page.lookup slotNum := by
  have hset : (page.occupy i).bitmap.getBit (page.occupy i).mem i = true := by
    rw [getBit_occupy, decide_eq_true rfl, Bool.true_or]
  rw [(h.occupy hi hclear).lookup_setRecord hi hset hlen]
  by_cases hs : slotNum = i
  · rw [if_pos hs, if_pos hs]
  · rw [if_neg hs, if_neg hs, h.lookup_occupy hi hs]

/-! ## What the operations answer and do -/

theorem isSome_lookup (page : RecordPage) (h0 : 0 ≤ slotNum) (hlt : slotNum < page.header.recordCapacity) :
    (page.lookup slotNum).isSome = page.bitmap.getBit page.mem slotNum.toNat := by
  unfold RecordPage.lookup
  cases hbit : page.bitmap.getBit page.mem slotNum.toNat <;> simp [h0, hlt]

theorem lookup_outside (hout : ¬ (0 ≤ slotNum ∧ slotNum < page.header.recordCapacity)) :
    page.lookup slotNum = none := if_neg fun hcon => hout ⟨hcon.1, hcon.2.1⟩

/-- The number of records never exceeds the capacity. -/
theorem recordNum_le (h : PageOk n page) : page.header.recordNum ≤ page.header.recordCapacity := by
  rw [h.counted]
  exact_mod_cast Bitmap.setBits_le (b := page.bitmap)

/-- A page with room takes a record at a free slot, and keeps the others. -/
theorem insertRecord_spec (h : PageOk n page) (hfull : page.isFull = false) (hlen : data.length = n) :
    ∃ i page', page.insertRecord data = some (.success, some i, page') ∧ PageOk n page' ∧
      i < page.header.recordCapacity ∧ page.lookup i = none ∧
      ∀ slotNum : Int, page'.lookup slotNum = if slotNum = i then some data else page.lookup slotNum := by
  have hroom : page.header.recordNum < page.header.recordCapacity := by
    simpa [RecordPage.isFull] using hfull
  have hbits : page.bitmap.setBits page.mem < page.bitmap.size := by
    have hcount := h.counted
    show _ < page.header.recordCapacity
    omega
  unfold RecordPage.insertRecord
  rw [if_neg (Int.ne_of_lt hroom)]
  have hspec : Bitmap.FirstFailing (page.bitmap.getBit page.mem) 0 page.header.recordCapacity
      (page.bitmap.nextUnsettedBit page.mem 0) := Bitmap.nextUnsettedBit_spec 0
  cases hnext : page.bitmap.nextUnsettedBit page.mem 0 with
  | none =>
    rw [hnext] at hspec
    obtain ⟨j, hj, hclear⟩ := Bitmap.exists_clear hbits
    exact absurd (hspec j (Nat.zero_le j) hj) (by rw [hclear]; simp)
  | some i =>
    rw [hnext] at hspec
    obtain ⟨-, hi, hclear, -⟩ := hspec
    refine ⟨i, _, rfl, (h.occupy hi hclear).setRecord, hi, ?_, fun slotNum => ?_⟩
    · refine if_neg fun hcon => ?_
      rw [Int.toNat_natCast, hclear] at hcon
      cases hcon.2.2
    · exact h.lookup_insert hi hclear hlen

theorem insertRecord_full (h : PageOk n page) (hfull : page.isFull = true) :
    page.insertRecord data = some (.recordNomem, none, page) := by
  have hle := h.recordNum_le
  have hge : page.header.recordNum ≥ page.header.recordCapacity := by
    simpa [RecordPage.isFull] using hfull
  exact if_pos (Int.le_antisymm hle hge)

/-- Recovery writes the record at the slot it is told, if the page has it. -/
theorem recoverInsertRecord_spec (h : PageOk n page) (h0 : 0 ≤ slotNum) (hlen : data.length = n) :
    ∃ rc page', page.recoverInsertRecord data slotNum = some (rc, page') ∧ PageOk n page' ∧
      (rc = .success ↔ slotNum < page.header.recordCapacity) ∧
      ∀ s, page'.lookup s = if rc = .success ∧ s = slotNum then some data else page.lookup s := by
  unfold RecordPage.recoverInsertRecord
  by_cases hlt : slotNum < page.header.recordCapacity
  · rw [if_neg (Int.not_le.mpr hlt), h.getBit_eq h0 hlt]
    have hi : slotNum.toNat < page.header.recordCapacity := by omega
    have hcast : ((slotNum.toNat : Nat) : Int) = slotNum := Int.toNat_of_nonneg h0
    cases hbit : page.bitmap.getBit page.mem slotNum.toNat with
    | true =>
      refine ⟨.success, _, rfl, h.setRecord, iff_of_true rfl hlt, fun s => ?_⟩
      rw [h.lookup_setRecord hi hbit hlen, hcast]
      simp
    | false =>
      refine ⟨.success, _, rfl, (h.occupy hi hbit).setRecord, iff_of_true rfl hlt, fun s => ?_⟩
      rw [h.lookup_insert hi hbit hlen, hcast]
      simp
  · rw [if_pos (Int.not_lt.mp hlt)]
    exact ⟨.recordInvalidRid, page, rfl, h, by simp [hlt], fun s => by simp⟩

/-- An update writes the record at a slot that is taken, and nowhere else. -/
theorem updateRecord_spec (h : PageOk n page) (h0 : 0 ≤ slotNum) (hlen : data.length = n) :
    ∃ rc page', page.updateRecord slotNum data = some (rc, page') ∧ PageOk n page' ∧
      (rc = .success ↔ (page.lookup slotNum).isSome) ∧
      ∀ s, page'.lookup s = if rc = .success ∧ s = slotNum then some data else page.lookup s := by
  unfold RecordPage.updateRecord
  by_cases hlt : slotNum < page.header.recordCapacity
  · have hi : slotNum.toNat < page.header.recordCapacity := by omega
    have hcast : ((slotNum.toNat : Nat) : Int) = slotNum := Int.toNat_of_nonneg h0
    have hbound := isSome_lookup page h0 hlt
    rw [if_neg (Int.not_le.mpr hlt), h.getBit_eq h0 hlt, hbound]
    cases hbit : page.bitmap.getBit page.mem slotNum.toNat with
    | true =>
      refine ⟨.success, _, rfl, h.setRecord, iff_of_true rfl rfl, fun s => ?_⟩
      rw [h.lookup_setRecord hi hbit hlen, hcast]
      simp
    | false => exact ⟨.recordNotExist, page, rfl, h, by simp, fun s => by simp⟩
  · rw [if_pos (Int.not_lt.mp hlt), lookup_outside fun hcon => hlt hcon.2]
    exact ⟨.invalidArgument, page, rfl, h, by simp, fun s => by simp⟩

/-- A record is found exactly if its slot is taken. -/
theorem getRecord_spec (h : PageOk n page) (h0 : 0 ≤ slotNum) :
    ∃ rc record, page.getRecord slotNum = some (rc, record) ∧
      (rc = .success ↔ (page.lookup slotNum).isSome) ∧
      (rc = .success → page.lookup slotNum = some record ∧ record.length = n) := by
  unfold RecordPage.getRecord
  by_cases hlt : slotNum < page.header.recordCapacity
  · have hbound := isSome_lookup page h0 hlt
    rw [if_neg (Int.not_le.mpr hlt), h.getBit_eq h0 hlt, hbound]
    cases hbit : page.bitmap.getBit page.mem slotNum.toNat with
    | true =>
      refine ⟨.success, _, rfl, iff_of_true rfl rfl, fun _ => ⟨if_pos ⟨h0, hlt, hbit⟩, ?_⟩⟩
      rw [length_load, h.realSize]
    | false => exact ⟨.recordNotExist, [], rfl, by simp, fun hcon => by cases hcon⟩
  · rw [if_pos (Int.not_lt.mp hlt), lookup_outside fun hcon => hlt hcon.2]
    exact ⟨.recordInvalidRid, [], rfl, by simp, fun hcon => by cases hcon⟩

/-- `delete_record` does its work if the slot number is below the capacity, or the bit that is read
    in its place is a clear one of the page. -/
theorem deleteRecord_spec (h : PageOk n page) (h0 : 0 ≤ slotNum)
    (hread : slotNum < page.header.recordCapacity ∨ page.getBit slotNum = some false) :
    ∃ rc page', page.deleteRecord slotNum = some (rc, page') ∧ PageOk n page' ∧
      (rc = .success ↔ (page.lookup slotNum).isSome) ∧
      ∀ s, page'.lookup s = if s = slotNum then none else page.lookup s := by
  unfold RecordPage.deleteRecord
  by_cases hlt : slotNum < page.header.recordCapacity
  · have hi : slotNum.toNat < page.header.recordCapacity := by omega
    have hcast : ((slotNum.toNat : Nat) : Int) = slotNum := Int.toNat_of_nonneg h0
    have hbound := isSome_lookup page h0 hlt
    rw [h.getBit_eq h0 hlt, hbound]
    cases hbit : page.bitmap.getBit page.mem slotNum.toNat with
    | true =>
      refine ⟨.success, _, rfl, h.vacate hi hbit, iff_of_true rfl rfl, fun s => ?_⟩
      rw [h.lookup_vacate hi, hcast]
    | false =>
      refine ⟨.recordNotExist, page, rfl, h, by simp, fun s => ?_⟩
      rw [hbit, Option.isSome_eq_false_iff, Option.isNone_iff_eq_none] at hbound
      split
      · rename_i hs
        rw [hs, hbound]
      · rfl
  · have hnone : page.lookup slotNum = none := lookup_outside fun hcon => hlt hcon.2
    rw [hread.resolve_left hlt, hnone]
    refine ⟨.recordNotExist, page, rfl, h, by simp, fun s => ?_⟩
    split
    · rename_i hs
      rw [hs, hnone]
    · rfl

/-- Elsewhere it does not: there is no such record, and a deletion that is answered succeeds. -/
theorem deleteRecord_outside (hlt : ¬ slotNum < page.header.recordCapacity)
    (hread : page.getBit slotNum ≠ some false) {rc : RC} {page' : RecordPage}
    (hrun : page.deleteRecord slotNum = some (rc, page')) :
    rc = .success ∧ page.lookup slotNum = none := by
  unfold RecordPage.deleteRecord at hrun
  cases hbit : page.getBit slotNum with
  | none =>
    rw [hbit] at hrun
    cases hrun
  | some bit =>
    cases bit with
    | false => exact absurd hbit hread
    | true =>
      rw [hbit] at hrun
      obtain ⟨rfl, -⟩ := Prod.mk.inj (Option.some.inj hrun)
      exact ⟨rfl, lookup_outside fun hcon => hlt hcon.2⟩

end PageOk

end Miniob.Record
