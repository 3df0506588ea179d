/-
  A scan of a record file (`RecordFileScanner`, `RecordPageIterator` in
  src/observer/storage/record/record_manager.cpp and `BufferPoolIterator` in
  src/observer/storage/buffer/disk_buffer_pool.cpp).

  1. Two iterators, one over the pages that are allocated and one over the slots of a page.  The second
     holds the slot it gives next, and gives it through the page handler; with a handler that has let go
     of its page this would be behaviour C++ does not define (`none`).
  2. `remaining`: what the calls of `next` still have to answer, in the order of pages and slots.
     `fetchNextRecordInPage_spec` is the loop over a page, `fetchPages_spec` the one over the pages,
     `next_spec` one call: it answers with the first of them, or with `RECORD_EOF` if there is none.
  3. `record_scan`: from this all the calls of a scan.  The answers are the live records that pass the
     filter and are visible, each once, in order, and in their places the errors: a page that cannot be
     fetched, a record the transaction refuses otherwise.

  The file does not change during the scan; latches and pins are left out.  A transaction is what
  `visit_record` answers for a record.
-/
import Miniob.Common.BitmapSearch
import Miniob.Record.RecordPage
import Miniob.Recovery.PageData
import Miniob.Trx.VisitRecord

namespace Miniob.RecordScan

open Miniob.Common Miniob.Common.Memory Miniob.Storage Miniob.Recovery
open Miniob.Record (PageOk RecordPage pageHeaderSize pageBitmapSize)

/-! ## Answers that run out -/

section Drain

variable {S A : Type} {next : S → Option (A × S)} {eof : A}

/-- The answer to the last of `k + 1` calls. -/
def nthAnswer (next : S → Option (A × S)) (s : S) : Nat → Option A
  | 0 => (next s).map Prod.fst
  | k + 1 =>
    match next s with
    | some (_, s) => nthAnswer next s k
    | none => none

/-- The first of the answers that are left, or the end. -/
def Answers (next : S → Option (A × S)) (eof : A) (left : S → List A → Prop) : Prop :=
  ∀ s as, left s as → ∃ s', next s = some (as.headD eof, s') ∧ left s' as.tail

/-- **Run.**  One answer after the other, and then the end for ever. -/
theorem nthAnswer_eq {left : S → List A → Prop} (h : Answers next eof left) (k : Nat) :
    ∀ {s as}, left s as → nthAnswer next s k = some (as[k]?.getD eof) := by
  induction k with
  | zero =>
    intro s as hs
    obtain ⟨s', hnext, -⟩ := h s as hs
    rw [nthAnswer, hnext]
    cases as <;> rfl
  | succ k ih =>
    intro s as hs
    obtain ⟨s', hnext, hs'⟩ := h s as hs
    rw [nthAnswer, hnext]
    dsimp only
    rw [ih hs', List.getElem?_tail]

end Drain

/-! ## The file, the filter and the transaction -/

/-- A file of records: the header page of its pool, and what `get_this_page` gives for a page.  The
    bitmap of a page lies in the page, and fetching does not answer with the end of a scan. -/
structure RecordFile where
  fileHeader : Memory
  getThisPage : PageNum → Except RC RecordPage
  bitmapWithin : ∀ pageNum page, getThisPage pageNum = .ok page →
    pageHeaderSize + pageBitmapSize page.header.recordCapacity ≤ bpPageDataSize
  failure : ∀ pageNum rc, getThisPage pageNum = .error rc → rc ≠ .success ∧ rc ≠ .recordEof

/-- `struct Record`: the identifier and the bytes. -/
structure Record where
  rid : RID
  data : List UInt8
  deriving DecidableEq

/-- `Trx::visit_record` of a transaction, on one table and in one mode.  It does not answer with the end of
    a scan. -/
structure Visitor where
  visitRecord : Record → RC
  noEof : ∀ record, visitRecord record ≠ .recordEof

/-- `VacuousTrx`. -/
def Visitor.vacuous : Visitor := ⟨fun _ => .success, fun _ h => nomatch h⟩

/-- `Field::get_int` of the field at an offset. -/
def getInt (offset : Nat) (record : Record) : Int := intOfBytes ((record.data.drop offset).take 4)

theorem visitRecord_ne_recordEof {D : Type} (trxId : Int) (mode : Trx.ReadWriteMode) (r : Db.Row D) :
    Trx.visitRecord trxId mode r ≠ .recordEof := by
  unfold Trx.visitRecord
  cases mode
  · split_ifs <;> decide
  · split_ifs <;> decide

/-- `MvccTrx`: the first two fields of a record are hidden ones, the numbers of transactions. -/
def Visitor.mvcc (trxId : Int) (mode : Trx.ReadWriteMode) : Visitor where
  visitRecord record := Trx.visitRecord trxId mode ⟨getInt 0 record, getInt 4 record, record.data⟩
  noEof _ := visitRecord_ne_recordEof trxId mode _

namespace RecordFile

variable (f : RecordFile)

/-- The page is allocated, and it is not the header page. -/
def Allocated (pageNum : PageNum) : Prop :=
  0 < pageNum ∧ pageNum < pageCount f.fileHeader ∧
    (allocated f.fileHeader).getBit f.fileHeader pageNum.toNat = true

/-- The record is stored in a page that is allocated and can be fetched. -/
def Live (record : Record) : Prop :=
  f.Allocated record.rid.pageNum ∧ ∃ page, f.getThisPage record.rid.pageNum = .ok page ∧
    page.lookup record.rid.slotNum = some record.data

end RecordFile

/-- The order of pages and slots. -/
def Before (rid rid' : RID) : Prop :=
  rid.pageNum < rid'.pageNum ∨ (rid.pageNum = rid'.pageNum ∧ rid.slotNum < rid'.slotNum)

/-- What a scan is opened with. -/
structure Scan where
  file : RecordFile
  conditionFilter : Option (Record → Bool)
  trx : Option Visitor

/-! ## The iterators -/

structure BufferPoolIterator where
  bitmap : Bitmap
  currentPageNum : Int

namespace BufferPoolIterator

/-- `init`: the bits of the header page, as many as there are pages. -/
def init (fileHeader : Memory) (startPage : Int) : BufferPoolIterator :=
  ⟨allocated fileHeader, if startPage ≤ 0 then -1 else startPage - 1⟩

variable (fileHeader : Memory) (it : BufferPoolIterator)

/-- What `next` returns, and what `has_next` compares with -1: the page after the current one, which is then
    the current one. -/
def next : Option Nat := it.bitmap.nextSettedBit fileHeader (it.currentPageNum + 1).toNat

variable {fileHeader it}

/-- Fewer pages are left. -/
theorem left_next {p : Nat} (h : it.next fileHeader = some p) :
    it.bitmap.size - ((p : Int) + 1).toNat < it.bitmap.size - (it.currentPageNum + 1).toNat := by
  obtain ⟨hlo, hhi⟩ := Bitmap.nextSettedBit_range h
  rw [show ((p : Int) + 1).toNat = p + 1 by omega]
  omega

end BufferPoolIterator

/-- `next_slot_num_` is `none` for -1. -/
structure RecordPageIterator where
  pageNum : PageNum
  bitmap : Bitmap
  nextSlotNum : Option Nat

namespace RecordPageIterator

def init (pageNum : PageNum) (page : RecordPage) (startSlotNum : Nat) : RecordPageIterator :=
  ⟨pageNum, page.bitmap, page.bitmap.nextSettedBit page.mem startSlotNum⟩

variable (it : RecordPageIterator)

def hasNext : Bool := it.nextSlotNum.isSome

/-- `next_slot_num_` as a number. -/
def slotNum : Int := (it.nextSlotNum.map Int.ofNat).getD (-1)

/-- The slot behind the next one. -/
def advance (page : RecordPage) : RecordPageIterator :=
  { it with nextSlotNum := it.nextSlotNum.bind fun i => it.bitmap.nextSettedBit page.mem (i + 1) }

/-- What `next` gives; the iterator then goes on as `advance` says.  `record` stays as it is if the page
    has nothing in the slot. -/
def next (page : RecordPage) (record : Record) : Option (RC × Record) :=
  match page.getRecord it.slotNum with
  | none => none
  | some (rc, data) =>
    let record := if rc = .success then ⟨⟨it.pageNum, it.slotNum⟩, data⟩ else record
    some (if record.rid.slotNum ≠ -1 then .success else .recordEof, record)

/-- A measure of the slots that are left. -/
def left : Nat := (it.nextSlotNum.map fun i => it.bitmap.size - i + 1).getD 0

/-- There is less left in a page, for the termination of the loop. -/
theorem left_advance (h : it.hasNext = true) (page : RecordPage) : (it.advance page).left < it.left := by
  obtain ⟨i, hi⟩ := Option.isSome_iff_exists.mp h
  rw [left, left, advance, hi]
  dsimp only [Option.bind_some, Option.map_some, Option.getD_some]
  cases hnext : it.bitmap.nextSettedBit page.mem (i + 1) with
  | none => exact Nat.succ_pos _
  | some j =>
    have hrange := Bitmap.nextSettedBit_range hnext
    dsimp only [Option.map_some, Option.getD_some]
    omega

end RecordPageIterator

/-! ## The scanner -/

/-- `record.rid().slot_num = -1`. -/
def Record.ended (record : Record) : Record := { record with rid := { record.rid with slotNum := -1 } }

/-- `RecordFileScanner`, with what the visitor and the filter answer. -/
structure RecordFileScanner where
  bpIterator : BufferPoolIterator
  /-- The page of `record_page_handler_`; `none` if the handler has let go of it. -/
  page : Option RecordPage
  /-- `none` until the first page. -/
  recordPageIterator : Option RecordPageIterator
  nextRecord : Record

namespace Scan

variable (scan : Scan)

/-- The record passes the filter. -/
def passes (record : Record) : Bool := scan.conditionFilter.all fun filter => filter record

/-- What the transaction says of a record. -/
def visitRecord (record : Record) : RC := (scan.trx.map fun trx => trx.visitRecord record).getD .success

/-- `fetch_next_record_in_page`. -/
def fetchNextRecordInPage (page : Option RecordPage) (it : RecordPageIterator) (record : Record) :
    Option (RC × Record × RecordPageIterator) :=
  if _h : it.hasNext = true then
    match page with
    | none => none
    | some page =>
      match it.next page record with
      | none => none
      | some (rc, record) =>
        if rc ≠ .success then some (rc, record, it.advance page)
        else if scan.passes record = false then
          fetchNextRecordInPage (some page) (it.advance page) record
        else
          let rc := scan.visitRecord record
          if rc = .recordInvisible then fetchNextRecordInPage (some page) (it.advance page) record
          else some (rc, record, it.advance page)
  else some (.recordEof, record.ended, it)
termination_by it.left
decreasing_by all_goals exact it.left_advance _h page

/-- The loop of `fetch_next_record` over the pages. -/
def fetchPages (s : RecordFileScanner) : Option (RC × RecordFileScanner) :=
  match _h : s.bpIterator.next scan.file.fileHeader with
  | some pageNum =>
    match scan.file.getThisPage pageNum with
    | .error rc => some (rc, { s with bpIterator := { s.bpIterator with currentPageNum := pageNum }, page := none })
    | .ok page =>
      let it := RecordPageIterator.init pageNum page 0
      match scan.fetchNextRecordInPage (some page) it s.nextRecord with
      | none => none
      | some (rc, record, it) =>
        let s := ⟨{ s.bpIterator with currentPageNum := pageNum }, some page, some it, record⟩
        if rc ≠ .recordEof then some (rc, s) else fetchPages s
  | none => some (.recordEof, { s with page := none, nextRecord := s.nextRecord.ended })
termination_by s.bpIterator.bitmap.size - (s.bpIterator.currentPageNum + 1).toNat
decreasing_by exact BufferPoolIterator.left_next _h

/-- `fetch_next_record`. -/
def fetchNextRecord (s : RecordFileScanner) : Option (RC × RecordFileScanner) :=
  match s.recordPageIterator with
  | none => scan.fetchPages s
  | some it =>
    match scan.fetchNextRecordInPage s.page it s.nextRecord with
    | none => none
    | some (rc, record, it) =>
      let s := { s with recordPageIterator := some it, nextRecord := record }
      if rc ≠ .recordEof then some (rc, s) else scan.fetchPages s

/-- `open_scan`; nothing is said of the record that a new scanner has. -/
def openScan (record : Record) : RecordFileScanner := ⟨.init scan.file.fileHeader 1, none, none, record⟩

/-- The answer of a call: a record, or a code. -/
def answer (rc : RC) (record : Record) : Except RC Record := if rc = .success then .ok record else .error rc

/-- `RecordFileScanner::next`. -/
def next (s : RecordFileScanner) : Option (Except RC Record × RecordFileScanner) :=
  match scan.fetchNextRecord s with
  | none => none
  | some (rc, s) => some (answer rc s.nextRecord, s)

/-! ## What is left of a scan -/

/-- The record in a slot. -/
def recordAt (pageNum : PageNum) (page : RecordPage) (slotNum : Nat) : Record :=
  ⟨⟨pageNum, slotNum⟩, load page.mem (page.recordData slotNum) page.header.recordRealSize⟩

/-- The answer a record gives, if the scan does not pass over it. -/
def judge (record : Record) : Option (Except RC Record) :=
  if scan.passes record = false then none
  else if scan.visitRecord record = .recordInvisible then none
  else some (answer (scan.visitRecord record) record)

/-- The answers of a page from a slot on. -/
def pageAnswers (pageNum : PageNum) (page : RecordPage) (start : Nat) : List (Except RC Record) :=
  (page.bitmap.settedFrom page.mem start).filterMap fun slotNum => scan.judge (recordAt pageNum page slotNum)

def fileAnswers (pageNum : PageNum) : List (Except RC Record) :=
  match scan.file.getThisPage pageNum with
  | .error rc => [.error rc]
  | .ok page => scan.pageAnswers pageNum page 0

/-- The pages behind the current one. -/
def pagesLeft (it : BufferPoolIterator) : List Nat :=
  it.bitmap.settedFrom scan.file.fileHeader (it.currentPageNum + 1).toNat

def pagesAnswers (it : BufferPoolIterator) : List (Except RC Record) :=
  (scan.pagesLeft it).flatMap fun p : Nat => scan.fileAnswers p

/-- There is no page, or nothing is left in it. -/
def Between (s : RecordFileScanner) : Prop := ∀ it ∈ s.recordPageIterator, it.nextSlotNum = none

inductive Remaining (s : RecordFileScanner) : List (Except RC Record) → Prop where
  | between : Between s → Remaining s (scan.pagesAnswers s.bpIterator)
  | inPage {pageNum : PageNum} {page : RecordPage} {start : Nat} :
      scan.file.getThisPage pageNum = .ok page → s.page = some page →
      s.recordPageIterator = some (.init pageNum page start) →
      Remaining s (scan.pageAnswers pageNum page start ++ scan.pagesAnswers s.bpIterator)

/-- A code and a state that give the first of the answers, and leave the others. -/
structure Delivers (as : List (Except RC Record)) (rc : RC) (s : RecordFileScanner) : Prop where
  first : answer rc s.nextRecord = as.headD (.error .recordEof)
  rest : scan.Remaining s as.tail

variable {scan}

/-! ## One page -/

theorem visitRecord_ne_eof (record : Record) : scan.visitRecord record ≠ .recordEof := by
  rw [visitRecord]
  cases scan.trx with
  | none => exact nofun
  | some trx => exact trx.noEof _

theorem advance_init {pageNum : PageNum} {page : RecordPage} {start i : Nat}
    (h : page.bitmap.nextSettedBit page.mem start = some i) :
    (RecordPageIterator.init pageNum page start).advance page = .init pageNum page (i + 1) := by
  rw [RecordPageIterator.advance, RecordPageIterator.init, h]
  rfl

/-- The iterator gives the record in the next slot. -/
theorem next_init {pageNum : PageNum} {page : RecordPage} {start i : Nat}
    (hwithin : pageHeaderSize + pageBitmapSize page.header.recordCapacity ≤ bpPageDataSize)
    (h : page.bitmap.nextSettedBit page.mem start = some i) (record : Record) :
    (RecordPageIterator.init pageNum page start).next page record
      = some (.success, recordAt pageNum page i) := by
  have hmem : i ∈ page.bitmap.settedFrom page.mem start := by
    rw [Bitmap.settedFrom_of_some h]
    exact List.mem_cons_self
  obtain ⟨-, hi, hbit⟩ := Bitmap.mem_settedFrom.mp hmem
  have hcap : i < page.header.recordCapacity := hi
  have hslot : (RecordPageIterator.init pageNum page start).slotNum = i := by
    rw [RecordPageIterator.slotNum, RecordPageIterator.init, h]
    rfl
  have hbyte : pageHeaderSize + i / 8 < bpPageDataSize := by
    rw [pageBitmapSize] at hwithin
    omega
  have hget : page.getRecord i
      = some (.success, load page.mem (page.recordData i) page.header.recordRealSize) := by
    rw [RecordPage.getRecord, if_neg (by omega), RecordPage.getBit, if_pos ⟨by omega, hbyte⟩,
      Int.toNat_natCast, hbit]
  have hne : (i : Int) ≠ -1 := by omega
  rw [RecordPageIterator.next, hslot, hget]
  dsimp only
  rw [if_pos rfl, if_pos hne]
  rfl

theorem pageAnswers_of_none {pageNum : PageNum} {page : RecordPage} {start : Nat}
    (h : page.bitmap.nextSettedBit page.mem start = none) : scan.pageAnswers pageNum page start = [] := by
  rw [pageAnswers, Bitmap.settedFrom_of_none h, List.filterMap_nil]

theorem pageAnswers_of_some {pageNum : PageNum} {page : RecordPage} {start i : Nat}
    (h : page.bitmap.nextSettedBit page.mem start = some i) :
    scan.pageAnswers pageNum page start
      = (scan.judge (recordAt pageNum page i)).toList ++ scan.pageAnswers pageNum page (i + 1) := by
  rw [pageAnswers, Bitmap.settedFrom_of_some h, List.filterMap_cons, pageAnswers]
  cases scan.judge (recordAt pageNum page i) <;> rfl

/-- Nothing is left in the page, whether the handler still has it or not. -/
theorem fetchNextRecordInPage_end {page : Option RecordPage} {it : RecordPageIterator} {record : Record}
    (h : it.nextSlotNum = none) :
    scan.fetchNextRecordInPage page it record = some (.recordEof, record.ended, it) := by
  have hnot : ¬ it.hasNext = true := by
    rw [RecordPageIterator.hasNext, h]
    exact Bool.false_ne_true
  rw [fetchNextRecordInPage.eq_def, dif_neg hnot]

/-- **The loop over a page**: it delivers the first answer of the page, or comes to its end. -/
theorem fetchNextRecordInPage_spec {pageNum : PageNum} {page : RecordPage}
    (hwithin : pageHeaderSize + pageBitmapSize page.header.recordCapacity ≤ bpPageDataSize) :
    ∀ (slots : List Nat) (start : Nat) (record : Record), page.bitmap.settedFrom page.mem start = slots →
      ∃ rc record' it,
        scan.fetchNextRecordInPage (some page) (.init pageNum page start) record = some (rc, record', it) ∧
        ((rc = .recordEof ∧ it.nextSlotNum = none ∧ scan.pageAnswers pageNum page start = []) ∨
          (rc ≠ .recordEof ∧ ∃ start', it = .init pageNum page start' ∧
            scan.pageAnswers pageNum page start
              = answer rc record' :: scan.pageAnswers pageNum page start')) := by
  intro slots
  induction slots with
  | nil =>
    intro start record hslots
    have hnext := Bitmap.nextSettedBit_of_nil hslots
    exact ⟨.recordEof, record.ended, .init pageNum page start, fetchNextRecordInPage_end hnext,
      Or.inl ⟨rfl, hnext, pageAnswers_of_none hnext⟩⟩
  | cons i slots ih =>
    intro start record hslots
    obtain ⟨hnext, htail⟩ := Bitmap.nextSettedBit_of_cons hslots
    have hhas : (RecordPageIterator.init pageNum page start).hasNext = true := by
      rw [RecordPageIterator.hasNext, RecordPageIterator.init, hnext]
      rfl
    rw [fetchNextRecordInPage, dif_pos hhas]
    dsimp only
    rw [next_init hwithin hnext, advance_init hnext, pageAnswers_of_some hnext]
    dsimp only
    rw [if_neg (by decide), judge]
    -- the record is passed over by the filter, passed over by the transaction, or answered
    split
    · exact ih (i + 1) _ htail
    · split
      · exact ih (i + 1) _ htail
      · exact ⟨_, _, _, rfl, Or.inr ⟨visitRecord_ne_eof _, i + 1, rfl, rfl⟩⟩

/-! ## The pages -/

theorem pagesAnswers_of_none {it : BufferPoolIterator} (h : it.next scan.file.fileHeader = none) :
    scan.pagesAnswers it = [] := by
  rw [pagesAnswers, pagesLeft, Bitmap.settedFrom_of_none h, List.flatMap_nil]

theorem pagesLeft_of_some {it : BufferPoolIterator} {p : Nat} (h : it.next scan.file.fileHeader = some p) :
    scan.pagesLeft it = p :: scan.pagesLeft { it with currentPageNum := p } := by
  rw [pagesLeft, Bitmap.settedFrom_of_some h, pagesLeft, show ((p : Int) + 1).toNat = p + 1 by omega]

theorem pagesAnswers_of_some {it : BufferPoolIterator} {p : Nat} (h : it.next scan.file.fileHeader = some p) :
    scan.pagesAnswers it = scan.fileAnswers p ++ scan.pagesAnswers { it with currentPageNum := p } := by
  rw [pagesAnswers, pagesLeft_of_some h, List.flatMap_cons, pagesAnswers]

/-- Behind the last page. -/
theorem fetchPages_end {s : RecordFileScanner} (hbetween : Between s)
    (hnext : s.bpIterator.next scan.file.fileHeader = none) :
    ∃ s', scan.fetchPages s = some (.recordEof, s') ∧
      scan.Delivers (scan.pagesAnswers s.bpIterator) .recordEof s' := by
  have hnone := pagesAnswers_of_none hnext
  refine ⟨{ s with page := none, nextRecord := s.nextRecord.ended }, ?_, ?_, ?_⟩
  · rw [fetchPages]
    split
    · rename_i p hp
      cases hnext.symm.trans hp
    · rfl
  · rw [hnone]
    rfl
  · have hremaining : scan.Remaining { s with page := none, nextRecord := s.nextRecord.ended }
        (scan.pagesAnswers s.bpIterator) := .between hbetween
    rw [hnone] at hremaining ⊢
    exact hremaining

/-- The scanner in a page that it has just opened, where the loop over the page stopped. -/
def opened (s : RecordFileScanner) (pageNum : PageNum) (page : RecordPage) (it : RecordPageIterator)
    (record : Record) : RecordFileScanner :=
  ⟨{ s.bpIterator with currentPageNum := pageNum }, some page, some it, record⟩

/-- At the next page: it cannot be read, it has an answer, or the loop goes on behind it. -/
theorem fetchPages_next {s : RecordFileScanner} {p : Nat} (hbetween : Between s)
    (hnext : s.bpIterator.next scan.file.fileHeader = some p) :
    (∃ rc s', scan.fetchPages s = some (rc, s') ∧ scan.Delivers (scan.pagesAnswers s.bpIterator) rc s') ∨
    ∃ page it record, it.nextSlotNum = none ∧
      scan.fetchPages s = scan.fetchPages (opened s p page it record) ∧
      scan.pagesAnswers s.bpIterator = scan.pagesAnswers (opened s p page it record).bpIterator := by
  rw [pagesAnswers_of_some hnext, fileAnswers, fetchPages]
  split
  case h_2 hp => cases hnext.symm.trans hp
  case h_1 q hq =>
    obtain rfl := Option.some.inj (hnext.symm.trans hq)
    cases hfile : scan.file.getThisPage p with
    | error rc =>
      refine Or.inl ⟨rc, _, rfl, ?_, .between hbetween⟩
      rw [answer, if_neg (scan.file.failure p rc hfile).1]
      rfl
    | ok page =>
      have hwithin := scan.file.bitmapWithin p page hfile
      obtain ⟨rc, record, it, hfetch, hpage⟩ :=
        @fetchNextRecordInPage_spec scan p page hwithin _ 0 s.nextRecord rfl
      dsimp only
      rw [hfetch]
      dsimp only
      rcases hpage with ⟨rfl, hend, hnone⟩ | ⟨hrc, start, rfl, hsome⟩
      · -- nothing in the page is delivered
        rw [if_neg (not_not.mpr rfl), hnone, List.nil_append]
        exact Or.inr ⟨page, it, record, hend, rfl, rfl⟩
      · rw [if_pos hrc, hsome, List.cons_append]
        exact Or.inl ⟨rc, _, rfl, rfl, .inPage hfile rfl rfl⟩

/-- **The loop over the pages**, from between two pages. -/
theorem fetchPages_spec : ∀ (pages : List Nat) (s : RecordFileScanner), scan.pagesLeft s.bpIterator = pages →
    Between s → ∃ rc s', scan.fetchPages s = some (rc, s') ∧
      scan.Delivers (scan.pagesAnswers s.bpIterator) rc s' := by
  intro pages
  induction pages with
  | nil =>
    intro s hpages hbetween
    obtain ⟨s', hrun, hdelivers⟩ := fetchPages_end hbetween (Bitmap.nextSettedBit_of_nil hpages)
    exact ⟨.recordEof, s', hrun, hdelivers⟩
  | cons p pages ih =>
    intro s hpages hbetween
    have hnext : s.bpIterator.next scan.file.fileHeader = some p := (Bitmap.nextSettedBit_of_cons hpages).1
    rcases fetchPages_next hbetween hnext with hdone | ⟨page, it, record, hend, hrun, hanswers⟩
    · exact hdone
    · have htail : scan.pagesLeft (opened s p page it record).bpIterator = pages := by
        rw [pagesLeft_of_some hnext] at hpages
        exact (List.cons.inj hpages).2
      rw [hrun, hanswers]
      refine ih _ htail fun it' hit' => ?_
      rw [← Option.some.inj hit']
      exact hend

/-! ## Calls -/

/-- **Step.**  A call answers with the first of what is left. -/
theorem next_spec : Answers scan.next (.error .recordEof) scan.Remaining := by
  intro s as hs
  have hfetch : ∃ rc s', scan.fetchNextRecord s = some (rc, s') ∧ scan.Delivers as rc s' := by
    rw [fetchNextRecord]
    cases hs with
    | between hbetween =>
      have hpages := @fetchPages_spec scan _ s rfl hbetween
      cases hit : s.recordPageIterator with
      | none => exact hpages
      | some it =>
        dsimp only
        rw [fetchNextRecordInPage_end (hbetween it hit)]
        dsimp only
        rw [if_neg (not_not.mpr rfl)]
        refine fetchPages_spec _ _ rfl fun it' hit' => ?_
        rw [← Option.some.inj hit']
        exact hbetween it hit
    | @inPage pageNum page start hfile hpage hit =>
      have hwithin := scan.file.bitmapWithin pageNum page hfile
      obtain ⟨rc, record, it, hfetch, hcases⟩ :=
        @fetchNextRecordInPage_spec scan pageNum page hwithin _ start s.nextRecord rfl
      rw [hit]
      dsimp only
      rw [hpage, hfetch]
      dsimp only
      rcases hcases with ⟨rfl, hend, hnone⟩ | ⟨hrc, start', rfl, hsome⟩
      · rw [if_neg (not_not.mpr rfl), hnone, List.nil_append]
        refine fetchPages_spec _ _ rfl fun it' hit' => ?_
        rw [← Option.some.inj hit']
        exact hend
      · rw [if_pos hrc, hsome, List.cons_append]
        exact ⟨rc, _, rfl, rfl, .inPage hfile rfl rfl⟩
  obtain ⟨rc, s', hs', hdelivers⟩ := hfetch
  refine ⟨s', ?_, hdelivers.rest⟩
  rw [next, hs']
  dsimp only
  rw [hdelivers.first]

/-! ## What the answers are -/

/-- The scan goes on with SUCCESS only. -/
theorem answer_eq_ok {rc : RC} {record r : Record} : answer rc record = .ok r ↔ rc = .success ∧ record = r := by
  rw [answer]
  split
  · rename_i hrc
    rw [Except.ok.injEq]
    exact (and_iff_right hrc).symm
  · rename_i hrc
    exact iff_of_false nofun fun h => hrc h.1

/-- Any other code ends it. -/
theorem answer_eq_error {rc rc' : RC} {record : Record} :
    answer rc record = .error rc' ↔ rc ≠ .success ∧ rc = rc' := by
  rw [answer]
  split
  · rename_i hrc
    exact iff_of_false nofun fun h => h.1 hrc
  · rename_i hrc
    rw [Except.error.injEq]
    exact (and_iff_right hrc).symm

/-- What is delivered has passed the filter and the visitor. -/
theorem judge_eq_some {record : Record} {a : Except RC Record} : scan.judge record = some a ↔
    scan.passes record = true ∧ scan.visitRecord record ≠ .recordInvisible ∧
      answer (scan.visitRecord record) record = a := by
  rw [judge]
  split
  · rename_i hpass
    rw [hpass]
    exact iff_of_false nofun fun h => Bool.false_ne_true h.1
  · rename_i hpass
    rw [Bool.not_eq_false] at hpass
    split
    · rename_i hvisit
      exact iff_of_false nofun fun h => h.2.1 hvisit
    · rename_i hvisit
      rw [Option.some.injEq]
      exact ⟨fun h => ⟨hpass, hvisit, h⟩, fun h => h.2.2⟩

/-- The slots that are set hold the records of the page. -/
theorem lookup_iff {page : RecordPage} {record : Record} :
    page.lookup record.rid.slotNum = some record.data ↔
      ∃ i ∈ page.bitmap.settedFrom page.mem 0, record = recordAt record.rid.pageNum page i := by
  obtain ⟨⟨p, slotNum⟩, data⟩ := record
  constructor
  · intro h
    rw [RecordPage.lookup] at h
    split at h
    · rename_i hslot
      obtain ⟨h0, hlt, hbit⟩ := hslot
      refine ⟨slotNum.toNat, Bitmap.mem_settedFrom.mpr ⟨Nat.zero_le _, ?_, hbit⟩, ?_⟩
      · show slotNum.toNat < page.header.recordCapacity
        dsimp only at h0 hlt
        omega
      · rw [recordAt, Option.some.inj h, Int.toNat_of_nonneg h0]
    · cases h
  · rintro ⟨i, hi, heq⟩
    obtain ⟨-, hlt, hbit⟩ := Bitmap.mem_settedFrom.mp hi
    rw [recordAt, Record.mk.injEq, RID.mk.injEq] at heq
    obtain ⟨⟨-, rfl⟩, rfl⟩ := heq
    have hcap : (i : Int) < page.header.recordCapacity := Int.ofNat_lt.mpr hlt
    dsimp only
    rw [RecordPage.lookup, Int.toNat_natCast, if_pos ⟨Int.natCast_nonneg i, hcap, hbit⟩]

/-- The pages that the iterator comes to are the allocated ones. -/
theorem mem_pagesLeft {p : Nat} : p ∈ scan.pagesLeft (.init scan.file.fileHeader 1) ↔
    scan.file.Allocated p := by
  rw [pagesLeft, BufferPoolIterator.init, if_neg (by decide), Bitmap.mem_settedFrom, RecordFile.Allocated,
    Int.toNat_natCast]
  have hsize : p < (allocated scan.file.fileHeader).size ↔ (p : Int) < pageCount scan.file.fileHeader := by
    show p < (pageCount scan.file.fileHeader).toNat ↔ _
    omega
  rw [hsize]
  refine and_congr_left' ?_
  exact Int.natCast_pos.symm

theorem mem_fileAnswers {pageNum : PageNum} {a : Except RC Record} : a ∈ scan.fileAnswers pageNum ↔
    (∃ rc, scan.file.getThisPage pageNum = .error rc ∧ a = .error rc) ∨
      ∃ page, scan.file.getThisPage pageNum = .ok page ∧
        ∃ i ∈ page.bitmap.settedFrom page.mem 0, scan.judge (recordAt pageNum page i) = some a := by
  rw [fileAnswers]
  cases hfile : scan.file.getThisPage pageNum with
  | error rc => simp
  | ok page => simp [pageAnswers, List.mem_filterMap]

/-- The answers of a scan: a page that cannot be read, or a record that is judged. -/
theorem mem_answers {a : Except RC Record} : a ∈ scan.pagesAnswers (.init scan.file.fileHeader 1) ↔
    (∃ pageNum rc, scan.file.Allocated pageNum ∧ scan.file.getThisPage pageNum = .error rc ∧ a = .error rc) ∨
      ∃ record, scan.file.Live record ∧ scan.judge record = some a := by
  rw [pagesAnswers, List.mem_flatMap]
  constructor
  · rintro ⟨p, hp, ha⟩
    rw [mem_pagesLeft] at hp
    rcases mem_fileAnswers.mp ha with ⟨rc, hfile, rfl⟩ | ⟨page, hfile, i, hi, hjudge⟩
    · exact Or.inl ⟨p, rc, hp, hfile, rfl⟩
    · exact Or.inr ⟨_, ⟨hp, page, hfile, lookup_iff.mpr ⟨i, hi, rfl⟩⟩, hjudge⟩
  · have hnat : ∀ {pageNum}, scan.file.Allocated pageNum → ∃ p : Nat, pageNum = p := fun h =>
      Int.eq_ofNat_of_zero_le (Int.le_of_lt h.1)
    rintro (⟨pageNum, rc, halloc, hfile, rfl⟩ | ⟨record, ⟨halloc, page, hfile, hlookup⟩, hjudge⟩)
    · obtain ⟨p, rfl⟩ := hnat halloc
      exact ⟨p, mem_pagesLeft.mpr halloc, mem_fileAnswers.mpr (Or.inl ⟨rc, hfile, rfl⟩)⟩
    · obtain ⟨i, hi, heq⟩ := lookup_iff.mp hlookup
      obtain ⟨p, hp⟩ := hnat halloc
      rw [hp] at halloc hfile heq
      rw [heq] at hjudge
      exact ⟨p, mem_pagesLeft.mpr halloc, mem_fileAnswers.mpr (Or.inr ⟨page, hfile, i, hi, hjudge⟩)⟩

/-- A record that is answered for a page lies in it. -/
theorem pageNum_of_mem {pageNum : PageNum} {r : Record} (h : .ok r ∈ scan.fileAnswers pageNum) :
    r.rid.pageNum = pageNum := by
  rcases mem_fileAnswers.mp h with ⟨rc, -, heq⟩ | ⟨page, -, i, -, hjudge⟩
  · cases heq
  · obtain ⟨-, -, hanswer⟩ := judge_eq_some.mp hjudge
    rw [← (answer_eq_ok.mp hanswer).2]
    rfl

/-- The records come in the order of pages and slots. -/
theorem answers_ordered (it : BufferPoolIterator) : (scan.pagesAnswers it).Pairwise fun a b =>
    ∀ r r', a = .ok r → b = .ok r' → Before r.rid r'.rid := by
  rw [pagesAnswers, List.pairwise_flatMap]
  constructor
  · intro p _
    rw [fileAnswers]
    cases scan.file.getThisPage p with
    | error rc => exact List.pairwise_singleton _ _
    | ok page =>
      dsimp only
      rw [pageAnswers, List.pairwise_filterMap]
      refine (Bitmap.settedFrom_ascending 0).imp fun {i j} hlt a ha b hb r r' hr hr' => ?_
      rw [hr] at ha
      rw [hr'] at hb
      obtain ⟨-, rfl⟩ := answer_eq_ok.mp (judge_eq_some.mp ha).2.2
      obtain ⟨-, rfl⟩ := answer_eq_ok.mp (judge_eq_some.mp hb).2.2
      exact Or.inr ⟨rfl, Int.ofNat_lt.mpr hlt⟩
  · refine (Bitmap.settedFrom_ascending _).imp fun {p q} hlt a ha b hb r r' hr hr' => ?_
    rw [hr] at ha
    rw [hr'] at hb
    refine Or.inl ?_
    rw [pageNum_of_mem ha, pageNum_of_mem hb]
    exact Int.ofNat_lt.mpr hlt

/-- The records among the answers. -/
theorem mem_ok_iff {record : Record} : .ok record ∈ scan.pagesAnswers (.init scan.file.fileHeader 1) ↔
    scan.file.Live record ∧ scan.passes record = true ∧ scan.visitRecord record = .success := by
  rw [mem_answers]
  constructor
  · rintro (⟨pageNum, rc, -, -, heq⟩ | ⟨r, hlive, hjudge⟩)
    · cases heq
    · obtain ⟨hpass, -, hanswer⟩ := judge_eq_some.mp hjudge
      obtain ⟨hvisit, rfl⟩ := answer_eq_ok.mp hanswer
      exact ⟨hlive, hpass, hvisit⟩
  · rintro ⟨hlive, hpass, hvisit⟩
    refine Or.inr ⟨record, hlive, judge_eq_some.mpr ⟨hpass, ?_, answer_eq_ok.mpr ⟨hvisit, rfl⟩⟩⟩
    rw [hvisit]
    intro heq
    cases heq

/-- The errors among the answers: of pages, and of records the transaction may not read. -/
theorem mem_error_iff {rc : RC} : .error rc ∈ scan.pagesAnswers (.init scan.file.fileHeader 1) ↔
    (∃ pageNum, scan.file.Allocated pageNum ∧ scan.file.getThisPage pageNum = .error rc) ∨
      ∃ record, scan.file.Live record ∧ scan.passes record = true ∧ scan.visitRecord record = rc ∧
        rc ≠ .success ∧ rc ≠ .recordInvisible := by
  rw [mem_answers]
  refine or_congr ⟨?_, ?_⟩ (exists_congr fun record => and_congr_right fun _ => ?_)
  · rintro ⟨pageNum, rc', halloc, hfile, heq⟩
    rw [Except.error.inj heq]
    exact ⟨pageNum, halloc, hfile⟩
  · rintro ⟨pageNum, halloc, hfile⟩
    exact ⟨pageNum, rc, halloc, hfile, rfl⟩
  · rw [judge_eq_some, answer_eq_error]
    constructor
    · rintro ⟨hpass, hvisible, hne, rfl⟩
      exact ⟨hpass, rfl, hne, hvisible⟩
    · rintro ⟨hpass, rfl, hne, hvisible⟩
      exact ⟨hpass, hvisible, hne, rfl⟩

/-- **A scan is exact.**  The calls of `next` answer with the live records that pass the filter and are
    visible, each once and in order, and with the errors met on the way; then with the end, for ever. -/
theorem record_scan (scan : Scan) (record₀ : Record) :
    ∃ answers : List (Except RC Record),
      (∀ k, nthAnswer scan.next (scan.openScan record₀) k = some (answers[k]?.getD (.error .recordEof))) ∧
      .error .recordEof ∉ answers ∧
      (answers.Pairwise fun a b => ∀ r r', a = .ok r → b = .ok r' → Before r.rid r'.rid) ∧
      (∀ record, .ok record ∈ answers ↔
        scan.file.Live record ∧ scan.passes record = true ∧ scan.visitRecord record = .success) ∧
      ∀ rc, .error rc ∈ answers ↔
        (∃ pageNum, scan.file.Allocated pageNum ∧ scan.file.getThisPage pageNum = .error rc) ∨
          ∃ record, scan.file.Live record ∧ scan.passes record = true ∧ scan.visitRecord record = rc ∧
            rc ≠ .success ∧ rc ≠ .recordInvisible := by
  have hopen : scan.Remaining (scan.openScan record₀) (scan.pagesAnswers (.init scan.file.fileHeader 1)) := by
    refine .between fun it hit => ?_
    cases hit
  refine ⟨_, fun k => nthAnswer_eq next_spec k hopen, ?_, answers_ordered _, fun record => mem_ok_iff,
    fun rc => mem_error_iff⟩
  intro heof
  rcases mem_error_iff.mp heof with ⟨pageNum, -, hfile⟩ | ⟨record, -, -, hvisit, -⟩
  · exact (scan.file.failure pageNum _ hfile).2 rfl
  · exact visitRecord_ne_eof record hvisit

end Scan

end Miniob.RecordScan
