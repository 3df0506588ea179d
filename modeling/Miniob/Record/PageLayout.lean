/-
  The layout that `init_empty_page` gives a page (src/observer/storage/record/record_manager.cpp), in
  both storage formats.

  A page is the header, the bitmap, the column index and the slots, in this order; only the PAX format
  has a column index.  The number of slots comes from a formula that counts one bit of the bitmap for
  each record.  The records begin at an aligned offset, so the last one may end behind the page:
  `fix_record_capacity` then takes it back, and one step of its loop is always enough
  (`TableFormat.overflow`).

  In the PAX format a record is not stored as a whole; its fields are in the cells of the columns, which
  share the bytes of the slots.

  Left out: the `ASSERT` on the identifiers of the fields, and the log entry.
-/
import Miniob.Record.RecordPage
import Mathlib.Algebra.BigOperators.Group.List.Basic
import Mathlib.Data.List.Pairwise

namespace Miniob.Record

open Miniob.Common Miniob.Common.Memory Miniob.Storage

/-! ## What a table definition fixes -/

/-- `YYMAXDEPTH`: the parser has the whole list of the column definitions on its stack. -/
def yyMaxDepth : Nat := 10000

/-- The lengths of the fields, those of the transactions included, and the storage format. -/
structure TableFormat where
  fieldLens : List Nat
  pax : Bool
  /-- `FieldMeta::init` refuses other lengths. -/
  pos : ∀ len ∈ fieldLens, 0 < len
  parsed : fieldLens.length ≤ yyMaxDepth

namespace TableFormat

variable (f : TableFormat)

def recordSize : Nat := f.fieldLens.sum

def columnNum : Nat := if f.pax then f.fieldLens.length else 0

end TableFormat

/-! ## `init_empty_page` -/

/-- The loop that fills `column_index`; `last` is the entry before. -/
def columnIndex (recordCapacity : Nat) : Nat → List Nat → List Nat
  | _, [] => []
  | last, len :: lens =>
    (len * recordCapacity + last) :: columnIndex recordCapacity (len * recordCapacity + last) lens

def TableFormat.header (f : TableFormat) : PageHeader := initHeader f.recordSize f.columnNum

/-- The column index of an empty page. -/
def TableFormat.colIdx (f : TableFormat) : List Nat := columnIndex f.header.recordCapacity 0 f.fieldLens

/-! ## Areas of a page -/

/-- A range of bytes of the page. -/
structure Area where
  offset : Nat
  length : Nat

namespace Area

instance : Membership Nat Area := ⟨fun a x => a.offset ≤ x ∧ x < a.offset + a.length⟩

def Disjoint (a b : Area) : Prop := ∀ x ∈ a, x ∉ b

/-- The first area ends where the second one begins, or in front of it. -/
def Before (a b : Area) : Prop := a.offset + a.length ≤ b.offset

theorem mem_iff {a : Area} {x : Nat} : x ∈ a ↔ a.offset ≤ x ∧ x < a.offset + a.length := Iff.rfl

theorem Before.disjoint {a b : Area} (h : a.Before b) : a.Disjoint b := by
  intro x hx hx'
  rw [mem_iff] at hx hx'
  unfold Before at h
  omega

theorem Disjoint.symm {a b : Area} (h : a.Disjoint b) : b.Disjoint a := fun x hx hx' => h x hx' hx

/-- A write to a part of an area is not seen in another one. -/
theorem load_memcpy {a b : Area} (h : a.Disjoint b) {n : Nat} (hn : n ≤ a.length) (mem : Memory)
    (data : List UInt8) :
    load (memcpy mem a.offset data n) b.offset b.length = load mem b.offset b.length := by
  refine load_congr fun x hle hlt => memcpy_of_outside ?_
  have hx : x ∈ b := ⟨hle, hlt⟩
  by_contra hin
  exact h x ⟨by omega, by omega⟩ hx

end Area

namespace PageHeader

variable (h : PageHeader)

def headerArea : Area := ⟨0, pageHeaderSize⟩

def bitmapArea : Area := ⟨pageHeaderSize, pageBitmapSize h.recordCapacity⟩

def columnIndexArea : Area := ⟨h.colIdxOffset, h.columnNum * 4⟩

/-- `get_record_data`. -/
def slot (slotNum : Nat) : Area := ⟨h.dataOffset + h.recordSize * slotNum, h.recordSize⟩

/-- What is in front of the records. -/
def frontAreas : List Area := [headerArea, h.bitmapArea, h.columnIndexArea]

/-- The areas of a page, from its beginning to its end. -/
def areas : List Area := h.frontAreas ++ (List.range h.recordCapacity).map h.slot

end PageHeader

namespace TableFormat

variable (f : TableFormat)

/-- `get_field_len`. -/
def getFieldLen (col : Nat) : Nat :=
  if col = 0 then f.colIdx.getD col 0 / f.header.recordCapacity
  else (f.colIdx.getD col 0 - f.colIdx.getD (col - 1) 0) / f.header.recordCapacity

/-- `get_field_data`, with the length of the field. -/
def cell (slotNum col : Nat) : Area where
  offset :=
    if col = 0 then f.header.dataOffset + f.getFieldLen col * slotNum
    else f.header.dataOffset + f.colIdx.getD (col - 1) 0 + f.getFieldLen col * slotNum
  length := f.getFieldLen col

/-! ## The number of records -/

/-- The records the formula has room for. -/
def estimate : Nat := pageRecordCapacity bpPageDataSize (align8 f.recordSize) (f.columnNum * 4)

theorem columnNum_le : f.columnNum ≤ yyMaxDepth := by
  unfold columnNum
  split
  · exact f.parsed
  · exact Nat.zero_le _

/-- A table with columns has records that are not empty. -/
theorem align8_recordSize : f.columnNum = 0 ∨ 8 ≤ align8 f.recordSize := by
  unfold columnNum
  split
  · cases hlens : f.fieldLens with
    | nil => exact Or.inl rfl
    | cons len lens =>
      have hlen : 0 < len := f.pos len (by rw [hlens]; simp)
      have hsum : f.recordSize = len + lens.sum := by rw [recordSize, hlens, List.sum_cons]
      unfold align8
      omega
  · exact Or.inl rfl

/-- The formula counts each record and its bit. -/
theorem estimate_le : f.estimate * (align8 f.recordSize * 8 + 1) ≤
    (bpPageDataSize - pageHeaderSize - f.columnNum * 4 - 1) * 8 :=
  Nat.div_mul_le_self _ _

theorem lt_estimate_succ : (bpPageDataSize - pageHeaderSize - f.columnNum * 4 - 1) * 8 <
    (f.estimate + 1) * (align8 f.recordSize * 8 + 1) := by
  have hlt := Nat.lt_mul_div_succ ((bpPageDataSize - pageHeaderSize - f.columnNum * 4 - 1) * 8)
    (Nat.succ_pos (align8 f.recordSize * 8))
  rwa [Nat.mul_comm (align8 f.recordSize * 8).succ] at hlt

theorem header_eq : f.header.columnNum = f.columnNum ∧ f.header.recordRealSize = f.recordSize ∧
    f.header.recordSize = align8 f.recordSize ∧
    f.header.colIdxOffset = align8 (pageHeaderSize + pageBitmapSize f.estimate) ∧
    f.header.dataOffset = f.header.colIdxOffset + f.columnNum * 4 ∧
    f.header.recordCapacity =
      fixRecordCapacity f.header.dataOffset (align8 f.recordSize) f.estimate :=
  ⟨rfl, rfl, rfl, rfl, rfl, rfl⟩

theorem capacity_le : f.header.recordCapacity ≤ f.estimate := fixRecordCapacity_le _ _ _

/-- The records the formula has room for overflow by less than the bytes of an alignment. -/
theorem overflow : f.header.dataOffset + f.estimate * align8 f.recordSize ≤ bpPageDataSize + 6 := by
  have hest := f.estimate_le
  have hcol := f.columnNum_le
  obtain ⟨-, -, -, hidx, hoff, -⟩ := f.header_eq
  rw [Nat.mul_add, ← Nat.mul_assoc] at hest
  rw [hoff, hidx]
  unfold align8 pageBitmapSize pageHeaderSize bpPageDataSize yyMaxDepth at *
  omega

/-- Without records there is room for everything else. -/
theorem dataOffset_le : f.header.dataOffset ≤ bpPageDataSize := by
  have hover := f.overflow
  obtain ⟨-, -, -, hidx, hoff, -⟩ := f.header_eq
  rcases f.align8_recordSize with hcol | hsize
  · -- the bitmap is not longer than the room that the formula has divided
    have hle := pageBitmapSize_le (align8 f.recordSize)
    have hest : f.estimate = pageRecordCapacity bpPageDataSize (align8 f.recordSize) 0 := by
      unfold estimate
      rw [hcol]
    rw [hoff, hidx, hcol, hest]
    exact hle
  · have hest := f.estimate_le
    have hcol := f.columnNum_le
    have hmul := Nat.mul_le_mul_left f.estimate (Nat.add_le_add_right (Nat.mul_le_mul_right 8 hsize) 1)
    rw [hoff, hidx]
    unfold align8 pageBitmapSize pageHeaderSize bpPageDataSize yyMaxDepth at *
    omega

theorem records_within : f.header.dataOffset + f.header.recordCapacity * f.header.recordSize
    ≤ bpPageDataSize :=
  fixRecordCapacity_within f.dataOffset_le _ _

/-- The bitmap of the records that are left is in front of the column index. -/
theorem bitmap_before : pageHeaderSize + pageBitmapSize f.header.recordCapacity ≤ f.header.colIdxOffset := by
  have hle := f.capacity_le
  have halign := le_align8 (pageHeaderSize + pageBitmapSize f.estimate)
  have hbytes := Nat.div_le_div_right (c := 8) (Nat.add_le_add_right hle 7)
  exact Nat.le_trans (Nat.add_le_add_left hbytes _) halign

/-! ## No more records fit -/

/-- The bytes an alignment may skip. -/
def alignmentSlack : Nat := 7

/-- `fix_record_capacity` takes back a record only if it ends behind the page. -/
theorem fixRecordCapacity_maximal (dataOffset size recordCapacity : Nat) :
    fixRecordCapacity dataOffset size recordCapacity = recordCapacity ∨
      bpPageDataSize < dataOffset + (fixRecordCapacity dataOffset size recordCapacity + 1) * size := by
  induction recordCapacity with
  | zero => exact Or.inl rfl
  | succ c ih =>
    rw [fixRecordCapacity]
    split
    · rename_i hover
      refine Or.inr ?_
      rcases ih with heq | hlt
      · rw [heq]
        exact hover
      · exact hlt
    · exact Or.inl rfl

/-- The loop takes back one record at most. -/
theorem estimate_le_capacity : f.estimate ≤ f.header.recordCapacity + 1 := by
  obtain ⟨-, -, -, -, -, hcap⟩ := f.header_eq
  have hmax := fixRecordCapacity_maximal f.header.dataOffset (align8 f.recordSize) f.estimate
  rw [← hcap] at hmax
  rcases hmax with heq | hlt
  · omega
  · by_contra hgt
    have hover := f.overflow
    have hoff := f.dataOffset_le
    have hmul := Nat.mul_le_mul_right (align8 f.recordSize)
      (show f.header.recordCapacity + 1 + 1 ≤ f.estimate by omega)
    rw [Nat.add_mul (f.header.recordCapacity + 1)] at hmul
    -- a record that is not empty is longer than what overflows
    have hsize : align8 f.recordSize = 0 ∨ 8 ≤ align8 f.recordSize := by
      unfold align8
      omega
    rcases hsize with hzero | hsize
    · rw [hzero] at hlt
      omega
    · omega

/-- One record more, with its bit, leaves no room for the alignment. -/
theorem capacity_maximal (c : Nat) (hc : f.header.recordCapacity < c) :
    bpPageDataSize < pageHeaderSize + pageBitmapSize c + f.columnNum * 4 + c * align8 f.recordSize +
      alignmentSlack := by
  have hsucc : bpPageDataSize < pageHeaderSize + pageBitmapSize (f.header.recordCapacity + 1) +
      f.columnNum * 4 + (f.header.recordCapacity + 1) * align8 f.recordSize + alignmentSlack := by
    have hest := f.estimate_le_capacity
    have hle := f.capacity_le
    obtain ⟨-, -, -, hidx, hoff, hcap⟩ := f.header_eq
    have hmax := fixRecordCapacity_maximal f.header.dataOffset (align8 f.recordSize) f.estimate
    rw [← hcap] at hmax
    have hcol := f.columnNum_le
    by_cases heq : f.header.recordCapacity = f.estimate
    · have hlt := f.lt_estimate_succ
      rw [heq]
      rw [Nat.mul_add, ← Nat.mul_assoc] at hlt
      unfold alignmentSlack pageBitmapSize pageHeaderSize bpPageDataSize yyMaxDepth at *
      omega
    · have hlt := hmax.resolve_left heq
      rw [hoff, hidx, show f.estimate = f.header.recordCapacity + 1 by omega] at hlt
      unfold align8 at hlt
      unfold alignmentSlack align8
      omega
  have hbits : pageBitmapSize (f.header.recordCapacity + 1) ≤ pageBitmapSize c :=
    Nat.div_le_div_right (Nat.add_le_add_right hc 7)
  have hmul := Nat.mul_le_mul_right (align8 f.recordSize) (Nat.succ_le_of_lt hc)
  rw [Nat.succ_eq_add_one] at hmul
  omega

/-! ## The areas -/

/-- What is in front of the records ends there. -/
theorem frontAreas_end : ∀ a ∈ f.header.frontAreas, a.offset + a.length ≤ f.header.dataOffset := by
  have hbitmap := f.bitmap_before
  obtain ⟨hcol, -, -, -, hoff, -⟩ := f.header_eq
  intro a ha
  unfold PageHeader.frontAreas at ha
  rcases List.mem_cons.mp ha with rfl | ha
  · show 0 + pageHeaderSize ≤ f.header.dataOffset
    omega
  rcases List.mem_cons.mp ha with rfl | ha
  · show pageHeaderSize + pageBitmapSize f.header.recordCapacity ≤ f.header.dataOffset
    omega
  · obtain rfl := List.mem_singleton.mp ha
    show f.header.colIdxOffset + f.header.columnNum * 4 ≤ f.header.dataOffset
    omega

/-- Header, bitmap, column index and records lie one behind the other. -/
theorem areas_before : f.header.areas.Pairwise Area.Before := by
  have hbitmap := f.bitmap_before
  obtain ⟨-, -, -, -, hoff, -⟩ := f.header_eq
  unfold PageHeader.areas
  refine List.pairwise_append.mpr ⟨?_, ?_, fun a ha b hb => ?_⟩
  · have hfirst : PageHeader.headerArea.Before f.header.bitmapArea := Nat.le_of_eq (Nat.zero_add _)
    have hsecond : f.header.bitmapArea.Before f.header.columnIndexArea := hbitmap
    have hthird : PageHeader.headerArea.Before f.header.columnIndexArea := by
      show 0 + pageHeaderSize ≤ f.header.colIdxOffset
      omega
    simp [PageHeader.frontAreas, hfirst, hsecond, hthird]
  · refine List.pairwise_map.mpr (List.pairwise_lt_range.imp fun {i j} hij => ?_)
    show f.header.dataOffset + f.header.recordSize * i + f.header.recordSize ≤
      f.header.dataOffset + f.header.recordSize * j
    have hmul := Nat.mul_le_mul_left f.header.recordSize (Nat.succ_le_of_lt hij)
    rw [Nat.mul_succ] at hmul
    omega
  · obtain ⟨i, -, rfl⟩ := List.mem_map.mp hb
    exact Nat.le_trans (f.frontAreas_end a ha) (Nat.le_add_right _ _)

/-- The last of them ends inside the page. -/
theorem areas_within : ∀ a ∈ f.header.areas, a.offset + a.length ≤ bpPageDataSize := by
  intro a ha
  rcases List.mem_append.mp ha with ha | ha
  · exact Nat.le_trans (f.frontAreas_end a ha) f.dataOffset_le
  · obtain ⟨i, hi, rfl⟩ := List.mem_map.mp ha
    have hmul := Nat.mul_le_mul_left f.header.recordSize (Nat.succ_le_of_lt (List.mem_range.mp hi))
    have hwithin := f.records_within
    rw [Nat.mul_succ] at hmul
    rw [Nat.mul_comm] at hwithin
    show f.header.dataOffset + f.header.recordSize * i + f.header.recordSize ≤ bpPageDataSize
    omega

theorem slot_mem_areas {slotNum : Nat} (h : slotNum < f.header.recordCapacity) :
    f.header.slot slotNum ∈ f.header.areas :=
  List.mem_append_right _ (List.mem_map_of_mem (List.mem_range.mpr h))

/-- Two areas of a page that are not the same have no byte in common. -/
theorem areas_disjoint {a b : Area} (ha : a ∈ f.header.areas) (hb : b ∈ f.header.areas) (hne : a ≠ b) :
    a.Disjoint b := by
  have hsymm : Std.Symm fun a b : Area => a ≠ b → a.Disjoint b := ⟨fun _ _ h hne => (h hne.symm).symm⟩
  have hpairwise : f.header.areas.Pairwise fun a b => a ≠ b → a.Disjoint b :=
    f.areas_before.imp fun h _ => h.disjoint
  exact hpairwise.forall_of_forall (fun _ _ h => absurd rfl h) ha hb hne

/-! ## The cells of the PAX format -/

/-- The index holds the end of each column. -/
theorem getD_columnIndex {recordCapacity col : Nat} : ∀ {last : Nat} {lens : List Nat}, col < lens.length →
    (columnIndex recordCapacity last lens).getD col 0 = (lens.take (col + 1)).sum * recordCapacity + last := by
  induction col with
  | zero =>
    intro last lens hcol
    cases lens with
    | nil => cases hcol
    | cons len lens => simp [columnIndex]
  | succ col ih =>
    intro last lens hcol
    cases lens with
    | nil => cases hcol
    | cons len lens =>
      have hrest := @ih (len * recordCapacity + last) lens (Nat.lt_of_succ_lt_succ hcol)
      rw [columnIndex, List.getD_cons_succ, hrest, List.take_succ_cons, List.sum_cons, Nat.add_mul]
      omega

/-- The cells of the columns in front of this one. -/
def widthBefore (col : Nat) : Nat := (f.fieldLens.take col).sum

theorem widthBefore_le (col : Nat) : f.widthBefore col ≤ f.recordSize := by
  have hsplit := congrArg List.sum (List.take_append_drop col f.fieldLens)
  rw [List.sum_append] at hsplit
  unfold widthBefore recordSize
  omega

theorem widthBefore_mono {col col' : Nat} (h : col ≤ col') : f.widthBefore col ≤ f.widthBefore col' := by
  obtain ⟨k, rfl⟩ := Nat.le.dest h
  unfold widthBefore
  rw [List.take_add, List.sum_append]
  exact Nat.le_add_right _ _

theorem widthBefore_succ {col : Nat} (h : col < f.fieldLens.length) :
    f.widthBefore (col + 1) = f.widthBefore col + f.fieldLens[col] := by
  unfold widthBefore
  rw [List.sum_take_succ f.fieldLens col h]

theorem colIdx_getD {col : Nat} (h : col < f.fieldLens.length) :
    f.colIdx.getD col 0 = f.widthBefore (col + 1) * f.header.recordCapacity :=
  getD_columnIndex h

/-- What `get_field_len` computes is the length of the field. -/
theorem getFieldLen_eq {col : Nat} (h : col < f.fieldLens.length) (hcap : 0 < f.header.recordCapacity) :
    f.getFieldLen col = f.fieldLens[col] := by
  have hsucc := f.widthBefore_succ h
  unfold getFieldLen
  split
  · rename_i hzero
    subst hzero
    rw [f.colIdx_getD h, Nat.mul_div_cancel _ hcap, hsucc]
    exact Nat.zero_add _
  · rename_i hpos
    obtain ⟨col, rfl⟩ := Nat.exists_eq_succ_of_ne_zero hpos
    rw [f.colIdx_getD h, Nat.succ_sub_one, f.colIdx_getD (Nat.lt_of_succ_lt h), ← Nat.mul_sub_right_distrib,
      Nat.mul_div_cancel _ hcap, hsucc]
    exact Nat.add_sub_cancel_left _ _

/-- The cell of a slot: the columns in front, and the slots in front. -/
theorem cell_eq {slotNum col : Nat} (h : col < f.fieldLens.length) (hslot : slotNum < f.header.recordCapacity) :
    f.cell slotNum col = ⟨f.header.dataOffset + f.widthBefore col * f.header.recordCapacity +
      f.fieldLens[col] * slotNum, f.fieldLens[col]⟩ := by
  have hlen := f.getFieldLen_eq h (Nat.zero_lt_of_lt hslot)
  unfold cell
  rw [hlen]
  split
  · rename_i hzero
    subst hzero
    simp [widthBefore]
  · rename_i hpos
    obtain ⟨col, rfl⟩ := Nat.exists_eq_succ_of_ne_zero hpos
    rw [Nat.succ_sub_one, f.colIdx_getD (Nat.lt_of_succ_lt h)]

/-- A cell ends in front of the next column. -/
theorem cell_end {slotNum col : Nat} (h : col < f.fieldLens.length) (hslot : slotNum < f.header.recordCapacity) :
    (f.cell slotNum col).offset + (f.cell slotNum col).length ≤
      f.header.dataOffset + f.widthBefore (col + 1) * f.header.recordCapacity := by
  have hmul := Nat.mul_le_mul_left f.fieldLens[col] (Nat.succ_le_of_lt hslot)
  rw [Nat.mul_succ] at hmul
  rw [f.cell_eq h hslot, f.widthBefore_succ h, Nat.add_mul]
  dsimp only
  omega

/-- The cells share the bytes of the slots. -/
theorem cell_within {slotNum col : Nat} (h : col < f.fieldLens.length) (hslot : slotNum < f.header.recordCapacity) :
    f.header.dataOffset ≤ (f.cell slotNum col).offset ∧
    (f.cell slotNum col).offset + (f.cell slotNum col).length ≤
      f.header.dataOffset + f.header.recordCapacity * f.header.recordSize := by
  have hend := f.cell_end h hslot
  have hwidth := Nat.mul_le_mul_right f.header.recordCapacity
    (Nat.le_trans (f.widthBefore_le (col + 1)) (le_align8 f.recordSize))
  refine ⟨?_, ?_⟩
  · rw [f.cell_eq h hslot, Nat.add_assoc]
    exact Nat.le_add_right _ _
  · obtain ⟨-, -, hsize, -⟩ := f.header_eq
    rw [hsize, Nat.mul_comm f.header.recordCapacity]
    omega

/-- Cells lie by column, and within a column by slot. -/
theorem cell_before {slot slot' col col' : Nat} (h : col < f.fieldLens.length)
    (h' : col' < f.fieldLens.length) (hslot : slot < f.header.recordCapacity)
    (hslot' : slot' < f.header.recordCapacity) (hlt : col < col' ∨ col = col' ∧ slot < slot') :
    (f.cell slot col).Before (f.cell slot' col') := by
  unfold Area.Before
  rcases hlt with hlt | ⟨rfl, hlt⟩
  · have hend := f.cell_end h hslot
    have hmul := Nat.mul_le_mul_right f.header.recordCapacity (f.widthBefore_mono (Nat.succ_le_of_lt hlt))
    rw [Nat.succ_eq_add_one] at hmul
    rw [f.cell_eq h' hslot']
    dsimp only
    omega
  · have hmul := Nat.mul_le_mul_left f.fieldLens[col] (Nat.succ_le_of_lt hlt)
    rw [Nat.mul_succ] at hmul
    rw [f.cell_eq h hslot, f.cell_eq h hslot']
    dsimp only
    omega

/-- Two cells have no byte in common. -/
theorem cell_disjoint {slot slot' col col' : Nat} (h : col < f.fieldLens.length)
    (h' : col' < f.fieldLens.length) (hslot : slot < f.header.recordCapacity)
    (hslot' : slot' < f.header.recordCapacity) (hne : (slot, col) ≠ (slot', col')) :
    (f.cell slot col).Disjoint (f.cell slot' col') := by
  rcases Nat.lt_trichotomy col col' with hlt | rfl | hlt
  · exact (f.cell_before h h' hslot hslot' (Or.inl hlt)).disjoint
  · rcases Nat.lt_trichotomy slot slot' with hlt | rfl | hlt
    · exact (f.cell_before h h' hslot hslot' (Or.inr ⟨rfl, hlt⟩)).disjoint
    · exact absurd rfl hne
    · exact (f.cell_before h' h hslot' hslot (Or.inr ⟨rfl, hlt⟩)).disjoint.symm
  · exact (f.cell_before h' h hslot' hslot (Or.inl hlt)).disjoint.symm

end TableFormat

/-! ## The layout -/

/-- Nothing but the area changes: the other areas of the page and the bits of the bitmap are as
    before. -/
def WritesOnly (h : PageHeader) (written : Area) (mem mem' : Memory) : Prop :=
  (∀ a ∈ h.areas, a ≠ written → load mem' a.offset a.length = load mem a.offset a.length) ∧
  ∀ index < h.recordCapacity, (Bitmap.mk pageHeaderSize h.recordCapacity).getBit mem' index =
    (Bitmap.mk pageHeaderSize h.recordCapacity).getBit mem index

/-- A write behind the column index does not reach the bitmap. -/
theorem TableFormat.getBit_memcpy (f : TableFormat) {dst n index : Nat} {mem : Memory} {data : List UInt8}
    (hdst : f.header.dataOffset ≤ dst) (hindex : index < f.header.recordCapacity) :
    (Bitmap.mk pageHeaderSize f.header.recordCapacity).getBit (memcpy mem dst data n) index =
      (Bitmap.mk pageHeaderSize f.header.recordCapacity).getBit mem index := by
  refine Bitmap.getBit_congr (memcpy_of_outside (Or.inl ?_))
  have hbitmap := f.bitmap_before
  obtain ⟨-, -, -, -, hoff, -⟩ := f.header_eq
  show pageHeaderSize + index / 8 < dst
  unfold pageBitmapSize at hbitmap
  omega

end Miniob.Record
