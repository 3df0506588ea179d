/-
  The buffer pool as its clients see it: numbered pages that can be fetched, changed, allocated
  and disposed (`DiskBufferPool` in src/observer/storage/buffer/disk_buffer_pool.cpp).

  The content type `α` is whatever the client keeps in its pages.  Page 0 is the pool's own
  header page and page 1 the client's file header; both are allocated when the file is created
  and never disposed, so client pages start at 2.  Frames, pins, latches and the disk are below
  this view.

  `PagePool` carries the fact that every allocated page lies between 2 and the page count as a
  field, so a page number that comes out of a pool is never `bpInvalidPageNum`.
-/
import Mathlib.Data.List.Perm.Subperm
import Miniob.Storage.Types

namespace Miniob.Storage

/-- The allocated pages of one file and the number of pages the file has. -/
structure PagePool (α : Type) where
  /-- Content of an allocated page; `none` when the page's bit in the header bitmap is clear. -/
  page : PageNum → Option α
  /-- `BPFileHeader::page_count`. -/
  pageCount : Nat
  twoLePageCount : 2 ≤ pageCount
  pageRange : ∀ (p : Int) (a : α), page p = some a → 2 ≤ p ∧ p < pageCount

namespace PagePool

variable {α : Type}

/-- A freshly created file: the two header pages and nothing else. -/
def empty : PagePool α where
  page _ := none
  pageCount := 2
  twoLePageCount := Nat.le_refl 2
  pageRange _ _ h := nomatch h

/-- Rewrite the content of page `p` (a frame is changed in place and marked dirty). -/
def modifyPage (pool : PagePool α) (p : PageNum) (f : α → α) : PagePool α where
  page q := if q = p then (pool.page q).map f else pool.page q
  pageCount := pool.pageCount
  twoLePageCount := pool.twoLePageCount
  pageRange q a h := by
    split at h
    · obtain ⟨b, hb, -⟩ := Option.map_eq_some_iff.mp h
      exact pool.pageRange q b hb
    · exact pool.pageRange q a h

/-- The page `allocate_page` picks: the first one whose bitmap bit is clear, else a new page at
    the end of the file. -/
def freePage (pool : PagePool α) : Int :=
  (((List.range pool.pageCount).map Int.ofNat).find?
    (fun i => decide (2 ≤ i) && (pool.page i).isNone)).getD pool.pageCount

theorem freePage_spec (pool : PagePool α) :
    2 ≤ pool.freePage ∧ pool.freePage ≤ pool.pageCount ∧ pool.page pool.freePage = none := by
  unfold freePage
  cases hf : ((List.range pool.pageCount).map Int.ofNat).find?
      (fun i => decide (2 ≤ i) && (pool.page i).isNone) with
  | some i =>
    have hp := List.find?_some hf
    have hm := List.mem_of_find?_eq_some hf
    simp only [Bool.and_eq_true, decide_eq_true_eq, Option.isNone_iff_eq_none] at hp
    obtain ⟨n, hn, rfl⟩ := List.mem_map.mp hm
    have hlt := List.mem_range.mp hn
    exact ⟨hp.1, by simp only [Option.getD_some, Int.ofNat_eq_natCast]; omega, hp.2⟩
  | none =>
    have h2 := pool.twoLePageCount
    refine ⟨by simp only [Option.getD_none]; omega, by simp, ?_⟩
    cases hpg : pool.page (pool.pageCount : Int) with
    | none => exact hpg
    | some a =>
      have := pool.pageRange _ a hpg
      omega

/-- Which page is free depends on the bitmap alone. -/
theorem freePage_congr {β : Type} {pool : PagePool α} {pool' : PagePool β}
    (hcount : pool.pageCount = pool'.pageCount)
    (hnone : ∀ p, (pool.page p).isNone = (pool'.page p).isNone) : pool.freePage = pool'.freePage := by
  unfold freePage
  rw [hcount]
  simp only [hnone]

/-- `DiskBufferPool::allocate_page`.  A new page's bytes are unspecified; every caller overwrites
    them before reading, so the initial content is passed in. -/
def allocatePage (pool : PagePool α) (init : α) : PageNum × PagePool α :=
  (pool.freePage,
    { page := fun q => if q = pool.freePage then some init else pool.page q
      pageCount := max pool.pageCount (pool.freePage.toNat + 1)
      twoLePageCount := Nat.le_trans pool.twoLePageCount (Nat.le_max_left _ _)
      pageRange := by
        intro q a h
        have hs := pool.freePage_spec
        split at h
        · subst_vars
          omega
        · have := pool.pageRange q a h
          omega })

/-- `DiskBufferPool::dispose_page`: clear the page's bit. -/
def disposePage (pool : PagePool α) (p : PageNum) : PagePool α where
  page q := if q = p then none else pool.page q
  pageCount := pool.pageCount
  twoLePageCount := pool.twoLePageCount
  pageRange q a h := by
    split at h
    · cases h
    · exact pool.pageRange q a h

/-! ## What each operation does to a page -/

theorem page_modifyPage (pool : PagePool α) (p q : PageNum) (f : α → α) :
    (pool.modifyPage p f).page q = if q = p then (pool.page q).map f else pool.page q := rfl

theorem page_allocatePage (pool : PagePool α) (init : α) (q : PageNum) :
    (pool.allocatePage init).2.page q
      = if q = pool.freePage then some init else pool.page q := rfl

theorem page_disposePage (pool : PagePool α) (p q : PageNum) :
    (pool.disposePage p).page q = if q = p then none else pool.page q := rfl

theorem ne_invalid {pool : PagePool α} {p : PageNum} (h : (pool.page p).isSome) :
    p ≠ bpInvalidPageNum := by
  obtain ⟨a, ha⟩ := Option.isSome_iff_exists.mp h
  have hr := pool.pageRange p a ha
  rintro rfl
  simp [bpInvalidPageNum] at hr

/-- Distinct allocated pages are fewer than the file has pages: the bound that every walk along
    page numbers is given as fuel. -/
theorem length_lt_pageCount (pool : PagePool α) {ps : List PageNum} (hnd : ps.Nodup)
    (hps : ∀ p ∈ ps, (pool.page p).isSome) : ps.length + 2 ≤ pool.pageCount := by
  have hsub : ps ⊆ ((List.range (pool.pageCount - 2)).map fun (n : Nat) => ((n : Int) + 2)) := by
    intro p hp
    obtain ⟨a, ha⟩ := Option.isSome_iff_exists.mp (hps p hp)
    have hr := pool.pageRange p a ha
    obtain ⟨n, hn⟩ := Int.eq_ofNat_of_zero_le (Int.sub_nonneg.mpr hr.1)
    exact List.mem_map.mpr ⟨n, List.mem_range.mpr (by omega), (Int.sub_eq_iff_eq_add.mp hn).symm⟩
  have hlen := (List.subperm_of_subset hnd hsub).length_le
  have h2 := pool.twoLePageCount
  simp only [List.length_map, List.length_range] at hlen
  omega

end PagePool
end Miniob.Storage
