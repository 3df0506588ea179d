/-
  Allocating and disposing pages of a buffer pool (`allocate_page` and `dispose_page` in
  src/observer/storage/buffer/disk_buffer_pool.cpp), on the bytes of its header page.

  The header has three numbers and behind them the bitmap, so that a page has 12 bytes less for it than it
  has bytes.  `MAX_PAGE_NUM` takes two of the numbers into account and allows 32 pages more than there are
  bits (`bitCapacity_lt`).

  An action that reads or writes a bit outside of the page is `undefined`.  `fetch` is what `get_this_page`
  answers when a page is used again.  The log gives an action its LSN.

  Left out: the frames of the pages, and the assertion of `dispose_page` that nobody has pinned the page.
-/
import Miniob.Common.Run
import Miniob.Recovery.PageData

namespace Miniob.Recovery

open Miniob.Common Miniob.Common.Memory Miniob.Storage Miniob.Buffer

/-! ## The operations -/

/-- The byte of the bitmap with the bit of this page is in the header page. -/
def bitInPage (pageNum : PageNum) : Prop := 0 ≤ pageNum ∧ 12 + pageNum.toNat / 8 < bpPageDataSize

instance (pageNum : PageNum) : Decidable (bitInPage pageNum) := inferInstanceAs (Decidable (_ ∧ _))

/-- The loop of `allocate_page`: the first page that is not allocated. -/
def freePage (mem : Memory) : Option Nat :=
  if allocatedPages mem < pageCount mem then
    (List.range (pageCount mem).toNat).find? fun i => !(allocated mem).getBit mem i
  else none

/-- The page that was allocated, if the return code is `SUCCESS`. -/
abbrev Allocation := RC × Option PageNum

/-- The header with a page more that was counted already. -/
def reused (mem : Memory) (pageNum : Nat) : Memory :=
  let mem := writeInt32 mem 8 (allocatedPages mem + 1)
  (allocated mem).setBit mem pageNum

/-- The header with a page more at the end. -/
def grown (mem : Memory) : Memory :=
  let pageNum := pageCount mem
  let mem := writeInt32 mem 8 (allocatedPages mem + 1)
  let mem := writeInt32 mem 4 (pageCount mem + 1)
  (allocated mem).setBit mem pageNum.toNat

/-- The header with a page less. -/
def disposed (mem : Memory) (pageNum : Nat) : Memory :=
  let mem := writeInt32 mem 8 (allocatedPages mem - 1)
  (allocated mem).clearBit mem pageNum

/-- `allocate_page` behind its loop. -/
def allocateAt (lsn : Int) (fetch : RC) (page : Page) : Option Nat → Except Fault (Allocation × Page)
  | some i =>
    if ¬ bitInPage i then .error .undefined
    else .ok ((fetch, if fetch = .success then some (i : Int) else none), ⟨lsn, reused page.data i⟩)
  | none =>
    -- all bits have been looked at
    if allocatedPages page.data < pageCount page.data ∧ ¬ bitInPage (pageCount page.data - 1) then
      .error .undefined
    else if pageCount page.data ≥ maxPageNum then .ok ((.bufferpoolNobuf, none), page)
    else if ¬ bitInPage (pageCount page.data) then .error .undefined
    else .ok ((.success, some (pageCount page.data)), ⟨lsn, grown page.data⟩)

def allocatePage (lsn : Int) (fetch : RC) (page : Page) : Except Fault (Allocation × Page) :=
  allocateAt lsn fetch page (freePage page.data)

def disposePage (lsn : Int) (pageNum : PageNum) (page : Page) : Except Fault (Allocation × Page) :=
  if pageNum = 0 then .ok ((.internal, none), page)
  else if ¬ bitInPage pageNum then .error .undefined
  else .ok ((.success, none), ⟨lsn, disposed page.data pageNum.toNat⟩)

/-- The header page that `create_file` writes. -/
def newHeader (bufferPoolId : Int) : Page where
  lsn := 0
  data :=
    let mem := writeInt32 (fun _ => 0) 8 1
    let mem := writeInt32 mem 4 1
    let mem := writeInt32 mem 0 bufferPoolId
    (allocated mem).setBit mem 0

inductive AllocAction where
  | allocatePage (fetch : RC)
  | disposePage (pageNum : PageNum)

/-- An action and the LSN that the log gives it. -/
structure AllocOperation where
  lsn : Int
  action : AllocAction

def allocStep (page : Page) (o : AllocOperation) : Except Fault (Allocation × Page) :=
  match o.action with
  | .allocatePage fetch => allocatePage o.lsn fetch page
  | .disposePage pageNum => disposePage o.lsn pageNum page

/-! ## The numbers and the bitmap -/

section Memory

variable {mem : Memory} {offset offset' : Nat} {x : Int}

theorem readInt32_writeInt32 (hlow : -2 ^ 31 ≤ x) (hhigh : x < 2 ^ 31) :
    readInt32 (writeInt32 mem offset x) offset = x := by
  have hload := load_memcpy_self mem offset (bytesOfInt 4 x)
  rw [length_bytesOfInt] at hload
  unfold readInt32 writeInt32
  rw [hload, intOfBytes_bytesOfInt]
  exact Int.bmod_eq_of_le (by omega) (by omega)

theorem readInt32_writeInt32_of_disjoint (h : offset' + 4 ≤ offset ∨ offset + 4 ≤ offset') :
    readInt32 (writeInt32 mem offset x) offset' = readInt32 mem offset' := by
  unfold readInt32 writeInt32
  rw [load_memcpy_of_disjoint h]

/-- The bits lie behind the numbers. -/
theorem getBit_writeInt32 (n i : Nat) (h : offset + 4 ≤ 12) :
    (⟨12, n⟩ : Bitmap).getBit (writeInt32 mem offset x) i = (⟨12, n⟩ : Bitmap).getBit mem i := by
  refine Bitmap.getBit_congr ?_
  show writeInt32 mem offset x (12 + i / 8) = mem (12 + i / 8)
  exact memcpy_of_outside (by omega)

theorem readInt32_setBit (n i : Nat) (h : offset + 4 ≤ 12) :
    readInt32 ((⟨12, n⟩ : Bitmap).setBit mem i) offset = readInt32 mem offset := by
  unfold readInt32
  rw [load_congr fun a _ ha => Bitmap.setBit_of_outside (show a ≠ 12 + i / 8 by omega)]

theorem readInt32_clearBit (n i : Nat) (h : offset + 4 ≤ 12) :
    readInt32 ((⟨12, n⟩ : Bitmap).clearBit mem i) offset = readInt32 mem offset := by
  unfold readInt32
  rw [load_congr fun a _ ha => Bitmap.clearBit_of_outside (show a ≠ 12 + i / 8 by omega)]

end Memory

/-! ## What the header says -/

/-- The bits that the header page has room for. -/
def bitCapacity : Nat := (bpPageDataSize - 12) * 8

/-- `MAX_PAGE_NUM` is larger. -/
theorem bitCapacity_lt : bitCapacity + 32 = maxPageNum := by decide

theorem bitInPage_iff (i : Nat) : bitInPage i ↔ i < bitCapacity := by
  have hnat : 12 + i / 8 < bpPageDataSize ↔ i < bitCapacity := by
    unfold bitCapacity bpPageDataSize
    omega
  exact ⟨fun h => hnat.mp h.2, fun h => ⟨Int.natCast_nonneg i, hnat.mpr h⟩⟩

/-- The bit of a page is set. -/
def pageBit (mem : Memory) (i : Nat) : Bool := (⟨12, 0⟩ : Bitmap).getBit mem i

/-- The numbers and the bitmap of a header agree. -/
structure HeaderOk (mem : Memory) : Prop where
  /-- The header page itself is allocated. -/
  header : pageBit mem 0 = true
  /-- There is a page, the header. -/
  positive : 1 ≤ pageCount mem
  /-- The bitmap has a bit for each page. -/
  fits : pageCount mem ≤ bitCapacity
  /-- `allocated_pages` is the number of bits that are set. -/
  counted : allocatedPages mem = (allocated mem).setBits mem
  /-- No bit behind the pages of the file is set. -/
  bounded : ∀ i, i < bitCapacity → pageBit mem i = true → (i : Int) < pageCount mem

section HeaderOk

variable {mem : Memory} {i : Nat}

/-- The bits of a header do not depend on how many of them are looked at. -/
theorem getBit_allocated (mem mem' : Memory) (i : Nat) :
    (allocated mem').getBit mem i = pageBit mem i := by
  unfold pageBit Bitmap.getBit
  rfl

theorem pageBit_writeInt32 {offset : Nat} {x : Int} (h : offset + 4 ≤ 12) (i : Nat) :
    pageBit (writeInt32 mem offset x) i = pageBit mem i := getBit_writeInt32 0 i h

theorem pageBit_setBit (mem' : Memory) (i j : Nat) :
    pageBit ((allocated mem').setBit mem i) j = (decide (j = i) || pageBit mem j) := by
  rw [← getBit_allocated _ mem', Bitmap.getBit_setBit, getBit_allocated]

theorem pageBit_clearBit (mem' : Memory) (i j : Nat) :
    pageBit ((allocated mem').clearBit mem i) j = (!decide (j = i) && pageBit mem j) := by
  rw [← getBit_allocated _ mem', Bitmap.getBit_clearBit, getBit_allocated]

/-- Two bitmaps with the same bits have as many of them set. -/
theorem setBits_eq_count (mem : Memory) :
    (allocated mem).setBits mem = (List.range (pageCount mem).toNat).countP (pageBit mem) :=
  List.countP_congr fun i _ => by rw [getBit_allocated]

/-- There are no more allocated pages than pages. -/
theorem HeaderOk.allocatedPages_le (h : HeaderOk mem) : allocatedPages mem ≤ pageCount mem := by
  have hle : (allocated mem).setBits mem ≤ (allocated mem).size := Bitmap.setBits_le
  have hsize : ((allocated mem).size : Int) = pageCount mem := by
    have := h.positive
    exact Int.toNat_of_nonneg (by omega)
  rw [h.counted]
  omega

/-- The search finds the first page that is free. -/
theorem freePage_eq_some (h : freePage mem = some i) :
    (i : Int) < pageCount mem ∧ pageBit mem i = false ∧ allocatedPages mem < pageCount mem := by
  unfold freePage at h
  by_cases hlt : allocatedPages mem < pageCount mem
  · rw [if_pos hlt] at h
    have hbit := List.find?_some h
    have hmem := List.mem_range.mp (List.mem_of_find?_eq_some h)
    refine ⟨by omega, ?_, hlt⟩
    rw [getBit_allocated] at hbit
    simpa using hbit
  · rw [if_neg hlt] at h
    cases h

/-- There is no free page only if all are allocated. -/
theorem HeaderOk.freePage_eq_none (h : HeaderOk mem) (hnone : freePage mem = none) :
    allocatedPages mem = pageCount mem := by
  refine Int.le_antisymm h.allocatedPages_le (Int.not_lt.mp fun hlt => ?_)
  unfold freePage at hnone
  rw [if_pos hlt] at hnone
  have hall : ∀ i ∈ List.range (pageCount mem).toNat, pageBit mem i = true := by
    intro i hi
    have := List.find?_eq_none.mp hnone i hi
    rw [getBit_allocated] at this
    simpa using this
  have hcount := List.countP_eq_length.mpr hall
  have hcounted := h.counted
  rw [setBits_eq_count, hcount, List.length_range] at hcounted
  have := h.positive
  omega

theorem freePage_of_full (h : allocatedPages mem = pageCount mem) : freePage mem = none :=
  if_neg (by omega)

end HeaderOk

/-! ### One page more and one page less -/

section Change

variable {mem mem' : Memory} {i : Nat}

theorem HeaderOk.bound (h : HeaderOk mem) : pageCount mem + 1 < 2 ^ 31 := by
  have hfits := h.fits
  have hcap : (bitCapacity : Int) + 1 < 2 ^ 31 := by decide
  omega

/-- The bits behind the last page are not set. -/
theorem HeaderOk.count_eq (h : HeaderOk mem) {n : Nat} (hle : pageCount mem ≤ n) (hn : n ≤ bitCapacity) :
    ((List.range n).countP (pageBit mem) : Int) = allocatedPages mem := by
  induction n with
  | zero =>
    have := h.positive
    omega
  | succ n ih =>
    by_cases heq : pageCount mem = (n + 1 : Nat)
    · have hnat : (pageCount mem).toNat = n + 1 := by omega
      rw [h.counted, setBits_eq_count, hnat]
    · have hclear : pageBit mem n = false := by
        cases hbit : pageBit mem n with
        | false => rfl
        | true =>
          have := h.bounded n (by omega) hbit
          omega
      rw [Bitmap.countP_range_succ, hclear, if_neg Bool.false_ne_true]
      exact ih (by omega) (by omega)

/-- A page that was free is counted and marked. -/
theorem HeaderOk.allocate (h : HeaderOk mem) (hfree : pageBit mem i = false)
    (hle : pageCount mem ≤ pageCount mem') (hfits : pageCount mem' ≤ bitCapacity)
    (hlt : (i : Int) < pageCount mem') (hcount : allocatedPages mem' = allocatedPages mem + 1)
    (hbit : ∀ j, pageBit mem' j = (decide (j = i) || pageBit mem j)) : HeaderOk mem' := by
  have hpositive := h.positive
  refine ⟨?_, by omega, hfits, ?_, fun j hj hset => ?_⟩
  · rw [hbit, h.header, Bool.or_true]
  · have hset : pageBit mem' i = true := by
      rw [hbit]
      simp
    have hother : ∀ j, j ≠ i → pageBit mem' j = pageBit mem j := by
      intro j hj
      rw [hbit]
      simp [hj]
    have hadd := Bitmap.countP_range_add hfree hset hother (pageCount mem').toNat
    rw [if_pos (by omega)] at hadd
    have hsame := h.count_eq (n := (pageCount mem').toNat) (by omega) (by omega)
    rw [setBits_eq_count, hadd, hcount]
    omega
  · rw [hbit, Bool.or_eq_true, decide_eq_true_eq] at hset
    rcases hset with rfl | hset
    · exact hlt
    · have := h.bounded j hj hset
      omega

/-- A page that was allocated is no longer. -/
theorem HeaderOk.dispose (h : HeaderOk mem) (hset : pageBit mem i = true) (hne : i ≠ 0)
    (hlt : (i : Int) < pageCount mem) (hsame : pageCount mem' = pageCount mem)
    (hcount : allocatedPages mem' = allocatedPages mem - 1)
    (hbit : ∀ j, pageBit mem' j = (!decide (j = i) && pageBit mem j)) : HeaderOk mem' := by
  refine ⟨?_, ?_, ?_, ?_, fun j hj hj' => ?_⟩
  · rw [hbit, h.header]
    simp [Ne.symm hne]
  · rw [hsame]
    exact h.positive
  · rw [hsame]
    exact h.fits
  · have hclear : pageBit mem' i = false := by
      rw [hbit]
      simp
    have hother : ∀ j, j ≠ i → pageBit mem j = pageBit mem' j := by
      intro j hj
      rw [hbit]
      simp [hj]
    have hadd := Bitmap.countP_range_add hclear hset hother (pageCount mem).toNat
    rw [if_pos (by omega)] at hadd
    have hcounted := h.counted
    rw [setBits_eq_count, hadd] at hcounted
    rw [setBits_eq_count, hsame, hcount, hcounted]
    omega
  · rw [hbit, Bool.and_eq_true] at hj'
    rw [hsame]
    exact h.bounded j hj hj'.2

end Change

/-! ## Steps -/

section Step

variable {page : Page} {pageNum : PageNum} (lsn : Int) (fetch : RC)

/-- A page is allocated: a number within the count whose bit is set. -/
def IsAllocated (mem : Memory) (pageNum : PageNum) : Prop :=
  0 ≤ pageNum ∧ pageNum < pageCount mem ∧ pageBit mem pageNum.toNat = true

/-- What `allocate_page` is for. -/
def AllocateAnswer (mem mem' : Memory) (out : Allocation) : Prop :=
  (out.1 = .success → ∃ pageNum, out.2 = some pageNum ∧ 0 < pageNum ∧ ¬ IsAllocated mem pageNum ∧
    IsAllocated mem' pageNum) ∧
  (out.1 ≠ .success → ∀ i < maxPageNum, IsAllocated mem i)

/-- A page that was free and is allocated now is a right answer. -/
theorem AllocateAnswer.success {mem mem' : Memory} {i : Nat} (h : HeaderOk mem)
    (hfree : pageBit mem i = false) (hlt : (i : Int) < pageCount mem') (hset : pageBit mem' i = true) :
    AllocateAnswer mem mem' (.success, some (i : Int)) := by
  refine ⟨fun _ => ⟨i, rfl, ?_, ?_, ?_⟩, fun hne => absurd rfl hne⟩
  · have hne : i ≠ 0 := by
      rintro rfl
      rw [h.header] at hfree
      cases hfree
    exact Int.natCast_pos.mpr (Nat.pos_of_ne_zero hne)
  · rintro ⟨-, -, hbit⟩
    rw [Int.toNat_natCast, hfree] at hbit
    cases hbit
  · exact ⟨Int.natCast_nonneg i, hlt, by rwa [Int.toNat_natCast]⟩

section Numbers

variable {mem : Memory} {i : Nat}

theorem pageCount_reused (mem : Memory) (i : Nat) : pageCount (reused mem i) = pageCount mem := by
  unfold pageCount reused allocated
  rw [readInt32_setBit _ _ (by decide), readInt32_writeInt32_of_disjoint (by decide)]

theorem pageBit_reused (mem : Memory) (i j : Nat) :
    pageBit (reused mem i) j = (decide (j = i) || pageBit mem j) := by
  unfold reused
  rw [pageBit_setBit, pageBit_writeInt32 (by decide)]

theorem HeaderOk.allocatedPages_nonneg (h : HeaderOk mem) : 0 ≤ allocatedPages mem := by
  rw [h.counted]
  exact Int.natCast_nonneg _

/-- A page that is used again counts once. -/
theorem allocatedPages_reused (h : HeaderOk mem) (i : Nat) :
    allocatedPages (reused mem i) = allocatedPages mem + 1 := by
  have hbound := h.bound
  have hle := h.allocatedPages_le
  have hnonneg := h.allocatedPages_nonneg
  unfold reused allocated
  rw [allocatedPages, readInt32_setBit _ _ (by decide)]
  exact readInt32_writeInt32 (by omega) (by omega)

/-- The file grows by one page. -/
theorem pageCount_grown (h : HeaderOk mem) : pageCount (grown mem) = pageCount mem + 1 := by
  have hbound := h.bound
  have hpositive := h.positive
  have hkeep : pageCount (writeInt32 mem 8 (allocatedPages mem + 1)) = pageCount mem :=
    readInt32_writeInt32_of_disjoint (by decide)
  unfold grown allocated
  dsimp only
  rw [hkeep, pageCount, readInt32_setBit _ _ (by decide)]
  exact readInt32_writeInt32 (by omega) (by omega)

/-- And this page is allocated. -/
theorem allocatedPages_grown (h : HeaderOk mem) :
    allocatedPages (grown mem) = allocatedPages mem + 1 := by
  have hbound := h.bound
  have hle := h.allocatedPages_le
  have hnonneg := h.allocatedPages_nonneg
  unfold grown allocated
  rw [allocatedPages, readInt32_setBit _ _ (by decide), readInt32_writeInt32_of_disjoint (by decide)]
  exact readInt32_writeInt32 (by omega) (by omega)

theorem pageBit_grown (mem : Memory) (j : Nat) :
    pageBit (grown mem) j = (decide (j = (pageCount mem).toNat) || pageBit mem j) := by
  unfold grown
  rw [pageBit_setBit, pageBit_writeInt32 (by decide), pageBit_writeInt32 (by decide)]

theorem pageCount_disposed (mem : Memory) (i : Nat) : pageCount (disposed mem i) = pageCount mem := by
  unfold pageCount disposed allocated
  rw [readInt32_clearBit _ _ (by decide), readInt32_writeInt32_of_disjoint (by decide)]

/-- A page that is given back is counted down. -/
theorem allocatedPages_disposed (h : HeaderOk mem) (i : Nat) :
    allocatedPages (disposed mem i) = allocatedPages mem - 1 := by
  have hbound := h.bound
  have hle := h.allocatedPages_le
  have hnonneg := h.allocatedPages_nonneg
  unfold disposed allocated
  rw [allocatedPages, readInt32_clearBit _ _ (by decide)]
  exact readInt32_writeInt32 (by omega) (by omega)

theorem pageBit_disposed (mem : Memory) (i j : Nat) :
    pageBit (disposed mem i) j = (!decide (j = i) && pageBit mem j) := by
  unfold disposed
  rw [pageBit_clearBit, pageBit_writeInt32 (by decide)]

end Numbers

/-- A page is used again. -/
theorem reuse_spec (h : HeaderOk page.data) {i : Nat} (hfree : freePage page.data = some i) :
    allocatePage lsn fetch page
        = .ok ((fetch, if fetch = .success then some (i : Int) else none), ⟨lsn, reused page.data i⟩) ∧
      HeaderOk (reused page.data i) ∧
      AllocateAnswer page.data (reused page.data i) (.success, some (i : Int)) := by
  obtain ⟨hlt, hclear, -⟩ := freePage_eq_some hfree
  have hfits := h.fits
  have hcount := pageCount_reused page.data i
  have hok : HeaderOk (reused page.data i) :=
    h.allocate hclear (Int.le_of_eq hcount.symm) (hcount ▸ hfits) (hcount ▸ hlt)
      (allocatedPages_reused h i) (pageBit_reused page.data i)
  refine ⟨?_, hok, .success h hclear (hcount ▸ hlt) ?_⟩
  · have hin : bitInPage i := (bitInPage_iff i).mpr (by omega)
    unfold allocatePage
    rw [hfree, allocateAt, if_neg (not_not.mpr hin)]
  · rw [pageBit_reused]
    simp

/-- The file grows by a page. -/
theorem grow_spec (h : HeaderOk page.data) (hfree : freePage page.data = none)
    (hroom : pageCount page.data < bitCapacity) :
    allocatePage lsn fetch page
        = .ok ((.success, some (pageCount page.data)), ⟨lsn, grown page.data⟩) ∧
      HeaderOk (grown page.data) ∧
      AllocateAnswer page.data (grown page.data) (.success, some (pageCount page.data)) := by
  have hfull := h.freePage_eq_none hfree
  have hpositive := h.positive
  obtain ⟨n, hn⟩ : ∃ n : Nat, pageCount page.data = n := ⟨_, (Int.toNat_of_nonneg (by omega)).symm⟩
  have hnat : (pageCount page.data).toNat = n := by omega
  have hclear : pageBit page.data n = false := by
    cases hbit : pageBit page.data n with
    | false => rfl
    | true =>
      have := h.bounded n (by omega) hbit
      omega
  have hcount := pageCount_grown h
  have hbit := pageBit_grown page.data
  rw [hnat] at hbit
  have hok : HeaderOk (grown page.data) :=
    h.allocate hclear (by omega) (by omega) (by omega) (allocatedPages_grown h) hbit
  refine ⟨?_, hok, ?_⟩
  · have hmax := bitCapacity_lt
    have hin : bitInPage (pageCount page.data) := by
      rw [hn]
      exact (bitInPage_iff n).mpr (by omega)
    unfold allocatePage
    rw [hfree, allocateAt, if_neg (fun hand => absurd hfull (Int.ne_of_lt hand.1)), if_neg (by omega),
      if_neg (not_not.mpr hin)]
  · rw [hn]
    refine .success h hclear (by omega) ?_
    rw [hbit]
    simp

/-- Where the page is allocated the header stays right; the code does not look. -/
theorem dispose_spec (h : HeaderOk page.data) (hset : IsAllocated page.data pageNum)
    (hne : pageNum ≠ 0) :
    disposePage lsn pageNum page = .ok ((.success, none), ⟨lsn, disposed page.data pageNum.toNat⟩) ∧
      HeaderOk (disposed page.data pageNum.toNat) := by
  obtain ⟨hnonneg, hlt, hbit⟩ := hset
  have hfits := h.fits
  obtain ⟨i, rfl⟩ : ∃ i : Nat, pageNum = i := ⟨_, (Int.toNat_of_nonneg hnonneg).symm⟩
  rw [Int.toNat_natCast] at hbit ⊢
  refine ⟨?_, h.dispose hbit (fun hzero => hne (congrArg Int.ofNat hzero)) hlt (pageCount_disposed _ i)
    (allocatedPages_disposed h i) (pageBit_disposed page.data i)⟩
  have hbound : (i : Int) < pageCount page.data := hlt
  have hin : bitInPage i := (bitInPage_iff i).mpr (by omega)
  unfold disposePage
  rw [if_neg hne, if_neg (not_not.mpr hin), Int.toNat_natCast]

end Step

/-! ## Runs -/

section Run

variable {s page : Page} {o : AllocOperation} {bufferPoolId : Int}

/-- A page that is used again can be fetched, a new one has a bit in the header page, and only pages that
    are allocated are given back. -/
def AllocatorAdmitted (page : Page) (o : AllocOperation) : Prop :=
  match o.action with
  | .allocatePage fetch =>
    (freePage page.data ≠ none → fetch = .success) ∧
    (freePage page.data = none → pageCount page.data < bitCapacity)
  | .disposePage pageNum => pageNum = 0 ∨ IsAllocated page.data pageNum

/-- What an action answers. -/
def AllocAnswer (page page' : Page) (o : AllocOperation) (out : Allocation) : Prop :=
  match o.action with
  | .allocatePage _ => AllocateAnswer page.data page'.data out
  | .disposePage pageNum => out.1 = .success ∧ ¬ IsAllocated page'.data pageNum ∨ pageNum = 0 ∧ page' = page

/-- **Step.**  An action that is admitted answers as it should and keeps the header in order. -/
theorem allocStep_spec (h : HeaderOk page.data) (hadm : AllocatorAdmitted page o) :
    ∃ out page', allocStep page o = .ok (out, page') ∧ HeaderOk page'.data ∧ AllocAnswer page page' o out := by
  obtain ⟨lsn, action⟩ := o
  cases action with
  | allocatePage fetch =>
    cases hfree : freePage page.data with
    | some i =>
      obtain rfl : fetch = .success := hadm.1 (by rw [hfree]; exact Option.some_ne_none i)
      obtain ⟨hstep, hok, hanswer⟩ := reuse_spec lsn .success h hfree
      exact ⟨_, _, hstep, hok, hanswer⟩
    | none =>
      obtain ⟨hstep, hok, hanswer⟩ := grow_spec lsn fetch h hfree (hadm.2 hfree)
      exact ⟨_, _, hstep, hok, hanswer⟩
  | disposePage pageNum =>
    by_cases hzero : pageNum = 0
    · exact ⟨_, page, if_pos hzero, h, Or.inr ⟨hzero, rfl⟩⟩
    · have hset : IsAllocated page.data pageNum := Or.resolve_left hadm hzero
      obtain ⟨hstep, hok⟩ := dispose_spec lsn h hset hzero
      refine ⟨_, _, hstep, hok, Or.inl ⟨rfl, fun hbit => ?_⟩⟩
      have hclear := hbit.2.2
      rw [pageBit_disposed] at hclear
      simp at hclear

theorem pageCount_newHeader (bufferPoolId : Int) : pageCount (newHeader bufferPoolId).data = 1 := by
  unfold newHeader allocated
  dsimp only
  rw [pageCount, readInt32_setBit _ _ (by decide), readInt32_writeInt32_of_disjoint (by decide)]
  exact readInt32_writeInt32 (by decide) (by decide)

theorem allocatedPages_newHeader (bufferPoolId : Int) :
    allocatedPages (newHeader bufferPoolId).data = 1 := by
  unfold newHeader allocated
  dsimp only
  rw [allocatedPages, readInt32_setBit _ _ (by decide), readInt32_writeInt32_of_disjoint (by decide),
    readInt32_writeInt32_of_disjoint (by decide)]
  exact readInt32_writeInt32 (by decide) (by decide)

/-- Only the header page is allocated. -/
theorem pageBit_newHeader (bufferPoolId : Int) (i : Nat) :
    pageBit (newHeader bufferPoolId).data i = decide (i = 0) := by
  have hzero : pageBit (fun _ => 0) i = false := by
    unfold pageBit Bitmap.getBit testBit
    simp
  unfold newHeader
  dsimp only
  rw [pageBit_setBit, pageBit_writeInt32 (by decide), pageBit_writeInt32 (by decide),
    pageBit_writeInt32 (by decide), hzero, Bool.or_false]

/-- A new file has its header page and no other. -/
theorem newHeader_ok (bufferPoolId : Int) : HeaderOk (newHeader bufferPoolId).data := by
  have hcount := pageCount_newHeader bufferPoolId
  have hbit := pageBit_newHeader bufferPoolId
  refine ⟨?_, ?_, ?_, ?_, fun i _ hi => ?_⟩
  · rw [hbit]
    rfl
  · rw [hcount]
  · rw [hcount]
    decide
  · rw [setBits_eq_count, hcount, allocatedPages_newHeader, funext hbit]
    decide
  · rw [hbit, decide_eq_true_eq] at hi
    rw [hcount, hi]
    decide

/-- **The page allocator.**  As long as the actions are admitted, the numbers in the header and the bitmap
    agree, every action answers as it should, and no bit outside of the page is touched. -/
theorem page_allocator (h : Reachable allocStep AllocatorAdmitted (newHeader bufferPoolId) s) :
    HeaderOk s.data ∧ ∀ o, AllocatorAdmitted s o →
      ∃ out s', allocStep s o = .ok (out, s') ∧ AllocAnswer s s' o out := by
  have hok : HeaderOk s.data := by
    refine h.invariant (I := fun page => HeaderOk page.data) (newHeader_ok bufferPoolId) ?_
    intro page o out page' hpage hadm hstep
    obtain ⟨out', page'', hstep', hok, -⟩ := allocStep_spec hpage hadm
    rw [hstep] at hstep'
    obtain ⟨-, rfl⟩ := Prod.mk.inj (Except.ok.inj hstep')
    exact hok
  refine ⟨hok, fun o hadm => ?_⟩
  obtain ⟨out, s', hstep, -, hanswer⟩ := allocStep_spec hok hadm
  exact ⟨out, s', hstep, hanswer⟩

/-- Pages are only allocated, and can always be fetched. -/
def Allocates (_ : Page) (o : AllocOperation) : Prop := o.action = .allocatePage .success

/-- As many pages can be allocated as there are bits. -/
theorem exists_full (bufferPoolId : Int) (n : Nat) (hn : n + 1 ≤ bitCapacity) :
    ∃ s, Reachable allocStep Allocates (newHeader bufferPoolId) s ∧
      HeaderOk s.data ∧ pageCount s.data = (n : Int) + 1 ∧ allocatedPages s.data = pageCount s.data := by
  induction n with
  | zero =>
    refine ⟨_, .init, newHeader_ok bufferPoolId, ?_, ?_⟩
    · rw [pageCount_newHeader]
      rfl
    · rw [pageCount_newHeader, allocatedPages_newHeader]
  | succ n ih =>
    obtain ⟨s, hs, hok, hcount, hfull⟩ := ih (by omega)
    have hfree := freePage_of_full hfull
    obtain ⟨hstep, hok', -⟩ := grow_spec 1 .success hok hfree (by omega)
    refine ⟨⟨1, grown s.data⟩, hs.next ⟨1, .allocatePage .success⟩ rfl hstep, hok', ?_, ?_⟩
    · rw [pageCount_grown hok, hcount]
      omega
    · rw [pageCount_grown hok, allocatedPages_grown hok, hfull]

end Run

/-- A page of a new file is allocated, given back and used again. -/
theorem page_allocator_reuse : ∃ s, Reachable allocStep AllocatorAdmitted (newHeader 1) s ∧
    HeaderOk s.data ∧ ∀ o, AllocatorAdmitted s o →
      ∃ out s', allocStep s o = .ok (out, s') ∧ AllocAnswer s s' o out := by
  have hadm : ∀ {page : Page} lsn, pageCount page.data < bitCapacity →
      AllocatorAdmitted page ⟨lsn, .allocatePage .success⟩ := fun _ hroom => ⟨fun _ => rfl, fun _ => hroom⟩
  have hok := newHeader_ok 1
  have hcount := pageCount_newHeader 1
  have hroom : pageCount (newHeader 1).data < bitCapacity := by
    rw [hcount]
    decide
  have hfull : allocatedPages (newHeader 1).data = pageCount (newHeader 1).data := by
    rw [hcount, allocatedPages_newHeader]
  obtain ⟨hgrow, hok₁, hanswer⟩ := grow_spec 1 .success hok (freePage_of_full hfull) hroom
  have hcount₁ := pageCount_grown hok
  generalize hs₁ : (⟨1, grown (newHeader 1).data⟩ : Page) = s₁ at hgrow
  rw [show grown (newHeader 1).data = s₁.data by rw [← hs₁]] at hok₁ hanswer hcount₁
  have h₁ : Reachable allocStep AllocatorAdmitted (newHeader 1) s₁ :=
    Reachable.next .init ⟨1, .allocatePage .success⟩ (hadm 1 hroom) hgrow
  have hset : IsAllocated s₁.data 1 := by
    obtain ⟨pageNum, heq, -, -, hset⟩ := hanswer.1 rfl
    rw [hcount] at heq
    obtain rfl := Option.some.inj heq
    exact hset
  obtain ⟨out, s₂, hdispose, hok₂, -⟩ := allocStep_spec (o := ⟨2, .disposePage 1⟩) hok₁ (Or.inr hset)
  have h₂ := h₁.next ⟨2, .disposePage 1⟩ (Or.inr hset) hdispose
  have hroom₂ : pageCount s₂.data < bitCapacity := by
    have hs₂ := (Prod.mk.inj (Except.ok.inj ((dispose_spec 2 hok₁ hset Int.one_ne_zero).1.symm.trans hdispose))).2
    rw [← hs₂, pageCount_disposed, hcount₁, hcount]
    decide
  obtain ⟨out, s₃, hreuse, -, -⟩ := allocStep_spec (o := ⟨3, .allocatePage .success⟩) hok₂ (hadm 3 hroom₂)
  have h₃ := h₂.next ⟨3, .allocatePage .success⟩ (hadm 3 hroom₂) hreuse
  exact ⟨s₃, h₃, page_allocator h₃⟩

/-- A page that is disposed of twice is counted down twice: the header says that nothing is allocated, and it has the
    bit of its own page. -/
theorem disposed_twice : ∃ s, Reachable allocStep (fun _ _ => True) (newHeader 1) s ∧
    allocatedPages s.data = 0 ∧ pageBit s.data 0 = true := by
  have hok := newHeader_ok 1
  have hcount := pageCount_newHeader 1
  have hfull : allocatedPages (newHeader 1).data = pageCount (newHeader 1).data := by
    rw [hcount, allocatedPages_newHeader]
  obtain ⟨hgrow, hok₁, hanswer⟩ := grow_spec 1 .success hok (freePage_of_full hfull) (by rw [hcount]; decide)
  have hset : IsAllocated (grown (newHeader 1).data) 1 := by
    obtain ⟨pageNum, heq, -, -, hset⟩ := hanswer.1 rfl
    rw [hcount] at heq
    obtain rfl := Option.some.inj heq
    exact hset
  obtain ⟨hdispose, hok₂⟩ := @dispose_spec ⟨1, grown (newHeader 1).data⟩ 1 2 hok₁ hset Int.one_ne_zero
  have htwice : disposePage 3 1 ⟨2, disposed (grown (newHeader 1).data) 1⟩ =
      .ok ((.success, none), ⟨3, disposed (disposed (grown (newHeader 1).data) 1) 1⟩) := by
    have hin : bitInPage 1 := (bitInPage_iff 1).mpr (by decide)
    unfold disposePage
    rw [if_neg Int.one_ne_zero, if_neg (not_not.mpr hin)]
    rfl
  have h₁ : Reachable allocStep (fun _ _ => True) (newHeader 1) _ := .next .init ⟨1, .allocatePage .success⟩ trivial hgrow
  have h₃ := (h₁.next ⟨2, .disposePage 1⟩ trivial hdispose).next ⟨3, .disposePage 1⟩ trivial htwice
  refine ⟨_, h₃, ?_, ?_⟩
  · have hok₂ : HeaderOk (disposed (grown (newHeader 1).data) 1) := hok₂
    show allocatedPages (disposed (disposed (grown (newHeader 1).data) 1) 1) = 0
    rw [allocatedPages_disposed hok₂, allocatedPages_disposed hok₁, allocatedPages_grown hok, hfull, hcount]
    rfl
  · show pageBit (disposed (disposed (grown (newHeader 1).data) 1) 1) 0 = true
    rw [pageBit_disposed, pageBit_disposed, pageBit_grown, hok.header]
    simp

/-- The pages of a new file are allocated until there are no bits left: the bit of the next one is behind
    the data of the header page, in the bytes that pad `Page` at its end.  And a page is disposed of twice. -/
theorem bit_outside_page : (∃ s, Reachable allocStep Allocates (newHeader 1) s ∧
      allocStep s ⟨1, .allocatePage .success⟩ = .error .undefined) ∧
    ∃ s, Reachable allocStep (fun _ _ => True) (newHeader 1) s ∧
      allocatedPages s.data = 0 ∧ pageBit s.data 0 = true := by
  refine ⟨?_, disposed_twice⟩
  have hpos : bitCapacity - 1 + 1 = bitCapacity := by decide
  obtain ⟨s, hs, hok, hcount, hfull⟩ := exists_full 1 (bitCapacity - 1) (Nat.le_of_eq hpos)
  refine ⟨s, hs, ?_⟩
  have hcount : pageCount s.data = (bitCapacity : Nat) := by omega
  have hmax := bitCapacity_lt
  have hout : ¬ bitInPage (bitCapacity : Nat) := by
    rw [bitInPage_iff]
    omega
  show allocateAt 1 .success s (freePage s.data) = _
  rw [freePage_of_full hfull, allocateAt, if_neg (fun hand => absurd hfull (Int.ne_of_lt hand.1)),
    if_neg (by omega), hcount, if_pos hout]

end Miniob.Recovery
