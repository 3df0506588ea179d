/-
  The double write buffer on a disk whose writes may fail (`flush_page` and `add_page` of
  src/observer/storage/buffer/double_write_buffer.cpp).

  * A write fails or succeeds as a whole, and the disk says which: the n-th write that is tried has the
    n-th outcome.
  * `flush_page` returns at the first page that cannot be written to its data file.  The pages before it
    have been freed then, and are still in the map.  Whether a slot could be marked invalid is not looked
    at.
  * `add_page` returns every other failure.

  Where `add_page` and `flush_page` succeed they do to the map and to the data files what they do where no
  write fails (`addPageOn_success`, `flushPageOn_success`).
-/
import Miniob.Buffer.Stored

namespace Miniob.Buffer

open Miniob.Common Miniob.Storage

variable {D : Type}

/-! ## The code -/

structure Disk (D : Type) where
  files : Files D
  /-- How many writes have been tried, and those that have failed. -/
  tried : Nat
  failures : List (Write D)

/-- Which writes succeed. -/
def Outcomes : Type := Nat → Bool

section Code

variable (fmt : PageFormat D) (outcomes : Outcomes) (maxPages : Nat) (t : Traversal D)

/-- `write_page` of a buffer pool, `write_page_internal`, or the write of the header. -/
def Disk.write (d : Disk D) (w : Write D) : RC × Disk D :=
  if outcomes d.tried then (.success, { d with files := d.files.write fmt w, tried := d.tried + 1 })
  else (.ioerrWrite, { d with tried := d.tried + 1, failures := d.failures ++ [w] })

/-- `write_page` of the double write buffer: an invalid page is skipped. -/
def Disk.writePage (d : Disk D) (p : DoubleWritePage D) : RC × Disk D :=
  if p.valid then d.write fmt outcomes (.data p.key p.page) else (.success, d)

namespace DiskDoubleWriteBuffer

/-- The loop of `flush_page`. -/
def flushLoop : List (DoubleWritePage D) → Disk D → RC × Disk D
  | [], d => (.success, d)
  | p :: ps, d =>
    let (rc, d) := d.writePage fmt outcomes p
    if rc ≠ .success then (rc, d)
    else flushLoop ps (d.write fmt outcomes (.slot { p with valid := false })).2

/-- The pages that the loop leaves behind, the one whose write has failed in front. -/
def leftBehind : List (DoubleWritePage D) → Disk D → List (DoubleWritePage D)
  | [], _ => []
  | p :: ps, d =>
    let (rc, d) := d.writePage fmt outcomes p
    if rc ≠ .success then p :: ps
    else leftBehind ps (d.write fmt outcomes (.slot { p with valid := false })).2

/-- `flush_page`. -/
def flushPageOn (b : DiskDoubleWriteBuffer D) (d : Disk D) : RC × DiskDoubleWriteBuffer D × Disk D :=
  let (rc, d) := flushLoop fmt outcomes (t.order b.pages) d
  if rc ≠ .success then (rc, b, d) else (.success, empty, d)

/-- The header is written if the map has become larger. -/
def writeHeader (b : DiskDoubleWriteBuffer D) (pageCnt : Nat) (d : Disk D) :
    RC × DiskDoubleWriteBuffer D × Disk D :=
  if pageCnt > b.pageCnt then
    let (rc, d) := d.write fmt outcomes (.header pageCnt)
    (rc, { b with pageCnt }, d)
  else (.success, b, d)

/-- `add_page`. -/
def addPageOn (b : DiskDoubleWriteBuffer D) (key : DoubleWritePageKey) (page : Page D) (d : Disk D) :
    RC × DiskDoubleWriteBuffer D × Disk D :=
  match b.find key with
  | some p =>
    let b := { b with pages := b.pages.map fun q => if q.key = key then { q with page } else q }
    let (rc, d) := d.write fmt outcomes (.slot { p with page })
    (rc, b, d)
  | none =>
    let pageCnt := b.pages.length
    let p : DoubleWritePage D := ⟨key, pageCnt, true, page⟩
    let b := { b with pages := b.pages ++ [p] }
    let (rc, d) := d.write fmt outcomes (.slot p)
    if rc ≠ .success then (rc, b, d)
    else
      let (rc, b, d) := b.writeHeader fmt outcomes (pageCnt + 1) d
      if rc ≠ .success then (rc, b, d)
      else if b.pages.length ≥ maxPages then b.flushPageOn fmt outcomes t d
      else (.success, b, d)

end DiskDoubleWriteBuffer

end Code

/-! ## What succeeds -/

/-- A write that brings a page somewhere; the others mark a slot invalid. -/
def Write.BringsPage : Write D → Prop
  | .header _ => True
  | .slot p => p.valid = true
  | .data _ _ => True

/-- Between the two disks no write has failed but some that mark slots invalid. -/
def Disk.NoneLost (d d' : Disk D) : Prop := ∀ w ∈ d'.failures, w ∈ d.failures ∨ ¬ w.BringsPage

section Success

open DiskDoubleWriteBuffer

variable {fmt : PageFormat D} {outcomes : Outcomes} {maxPages : Nat} {t : Traversal D} {d d' d'' : Disk D}
  {b b' : DiskDoubleWriteBuffer D} {w : Write D} {key : DoubleWritePageKey} {page : Page D}

theorem Disk.NoneLost.refl (d : Disk D) : d.NoneLost d := fun _ hw => Or.inl hw

theorem Disk.NoneLost.trans (h : d.NoneLost d') (h' : d'.NoneLost d'') : d.NoneLost d'' := by
  intro w hw
  rcases h' w hw with hw | hw
  · exact h w hw
  · exact Or.inr hw

/-- A write that succeeds. -/
theorem tryWrite_success (h : d.write fmt outcomes w = (.success, d')) :
    d'.files = d.files.write fmt w ∧ d.NoneLost d' := by
  unfold Disk.write at h
  split at h
  · obtain ⟨-, rfl⟩ := Prod.mk.inj h
    exact ⟨rfl, .refl d⟩
  · obtain ⟨hrc, -⟩ := Prod.mk.inj h
    cases hrc

/-- A slot is marked invalid, or not: the data files are as before. -/
theorem tryWrite_invalid (fmt : PageFormat D) (outcomes : Outcomes) (d : Disk D) (p : DoubleWritePage D) :
    (d.write fmt outcomes (.slot { p with valid := false })).2.files.data = d.files.data ∧
      d.NoneLost (d.write fmt outcomes (.slot { p with valid := false })).2 := by
  unfold Disk.write
  split
  · exact ⟨rfl, .refl d⟩
  · refine ⟨rfl, fun w hw => ?_⟩
    rcases List.mem_append.mp hw with hw | hw
    · exact Or.inl hw
    · obtain rfl := List.mem_singleton.mp hw
      exact Or.inr Bool.false_ne_true

/-- Only the data files are looked at in the data files. -/
theorem data_afterWrites {files files' : Files D} (h : files.data = files'.data) : ∀ ws : List (Write D),
    (afterWrites (Files.write fmt) files ws).data = (afterWrites (Files.write fmt) files' ws).data
  | [] => h
  | w :: ws => by
    have hw : (files.write fmt w).data = (files'.write fmt w).data := by
      cases w with
      | header pageCnt => exact h
      | slot p => exact h
      | data key page =>
        show writeData fmt files.data key page = writeData fmt files'.data key page
        rw [h]
    exact data_afterWrites hw ws

/-- **Run.** -/
theorem flushLoop_success : ∀ {ps : List (DoubleWritePage D)} {d d' : Disk D},
    flushLoop fmt outcomes ps d = (.success, d') →
      d'.files.data = (afterWrites (Files.write fmt) d.files (flushWrites ps)).data ∧ d.NoneLost d'
  | [], d, d', h => by
    obtain ⟨-, rfl⟩ := Prod.mk.inj h
    exact ⟨rfl, .refl d⟩
  | p :: ps, d, d', h => by
    rw [flushLoop] at h
    have hslot : ∀ d₁ : Disk D, flushLoop fmt outcomes ps
          (d₁.write fmt outcomes (.slot { p with valid := false })).2 = (.success, d') →
        d'.files.data = (afterWrites (Files.write fmt) d₁.files
          (.slot { p with valid := false } :: flushWrites ps)).data ∧ d₁.NoneLost d' := by
      intro d₁ h₁
      obtain ⟨hdata, hlost⟩ := flushLoop_success h₁
      obtain ⟨hsame, hlost'⟩ := tryWrite_invalid fmt outcomes d₁ p
      have hslot : (d₁.write fmt outcomes (.slot { p with valid := false })).2.files.data
          = (d₁.files.write fmt (.slot { p with valid := false })).data := hsame
      exact ⟨hdata.trans (data_afterWrites hslot _), hlost'.trans hlost⟩
    cases hwrite : d.writePage fmt outcomes p with
    | mk rc d₁ =>
      rw [hwrite] at h
      dsimp only at h
      split at h
      · rename_i hrc
        exact absurd (Prod.mk.inj h).1 hrc
      rename_i hrc
      rw [not_not.mp hrc] at hwrite
      obtain ⟨hdata, hlost⟩ := hslot d₁ h
      rw [flushWrites]
      unfold Disk.writePage at hwrite
      split at hwrite
      · rename_i hvalid
        rw [if_pos hvalid]
        obtain ⟨hfiles, hlost'⟩ := tryWrite_success hwrite
        rw [hfiles] at hdata
        exact ⟨hdata, hlost'.trans hlost⟩
      · rename_i hvalid
        rw [if_neg hvalid]
        obtain ⟨-, rfl⟩ := Prod.mk.inj hwrite
        exact ⟨hdata, hlost⟩

theorem flushPageOn_success (h : b.flushPageOn fmt outcomes t d = (.success, b', d')) :
    b' = (b.flushPage t).1 ∧
      d'.files.data = (afterWrites (Files.write fmt) d.files (b.flushPage t).2).data ∧ d.NoneLost d' := by
  unfold flushPageOn at h
  cases hloop : flushLoop fmt outcomes (t.order b.pages) d with
  | mk rc d₁ =>
    rw [hloop] at h
    dsimp only at h
    split at h
    · rename_i hrc
      exact absurd (Prod.mk.inj h).1 hrc
    · rename_i hrc
      rw [not_not.mp hrc] at hloop
      obtain ⟨-, hb⟩ := Prod.mk.inj h
      obtain ⟨rfl, rfl⟩ := Prod.mk.inj hb
      exact ⟨rfl, flushLoop_success hloop⟩

/-- The header does not matter to the data files. -/
theorem writeHeader_success {pageCnt : Nat} (h : b.writeHeader fmt outcomes pageCnt d = (.success, b', d')) :
    b' = { b with pageCnt := max pageCnt b.pageCnt } ∧ d'.files.data = d.files.data ∧ d.NoneLost d' := by
  unfold writeHeader at h
  split at h
  · rename_i hlarger
    cases hwrite : d.write fmt outcomes (.header pageCnt) with
    | mk rc d₁ =>
      rw [hwrite] at h
      obtain ⟨rfl, hb⟩ := Prod.mk.inj h
      obtain ⟨rfl, rfl⟩ := Prod.mk.inj hb
      obtain ⟨hfiles, hlost⟩ := tryWrite_success hwrite
      refine ⟨?_, ?_, hlost⟩
      · rw [Nat.max_eq_left (Nat.le_of_lt hlarger)]
      · rw [hfiles]
        rfl
  · rename_i hsmall
    obtain ⟨-, hb⟩ := Prod.mk.inj h
    obtain ⟨rfl, rfl⟩ := Prod.mk.inj hb
    refine ⟨?_, rfl, .refl d⟩
    rw [Nat.max_eq_right (Nat.not_lt.mp hsmall)]

/-- **`add_page`.** -/
theorem addPageOn_success (h : b.addPageOn fmt outcomes maxPages t key page d = (.success, b', d')) :
    b' = (b.addPage maxPages key page t).1 ∧
      d'.files.data = (afterWrites (Files.write fmt) d.files (b.addPage maxPages key page t).2).data ∧
      d.NoneLost d' := by
  unfold addPageOn at h
  unfold DiskDoubleWriteBuffer.addPage
  cases hfind : b.find key with
  | some p =>
    rw [hfind] at h
    dsimp only at h ⊢
    cases hwrite : d.write fmt outcomes (.slot { p with page }) with
    | mk rc d₁ =>
      rw [hwrite] at h
      obtain ⟨rfl, hb⟩ := Prod.mk.inj h
      obtain ⟨rfl, rfl⟩ := Prod.mk.inj hb
      obtain ⟨hfiles, hlost⟩ := tryWrite_success hwrite
      exact ⟨rfl, congrArg Files.data hfiles, hlost⟩
  | none =>
    rw [hfind] at h
    dsimp only at h ⊢
    cases hwrite : d.write fmt outcomes (.slot ⟨key, b.pages.length, true, page⟩) with
    | mk rc d₁ =>
      rw [hwrite] at h
      dsimp only at h
      split at h
      · rename_i hrc
        exact absurd (Prod.mk.inj h).1 hrc
      rename_i hrc
      rw [not_not.mp hrc] at hwrite
      obtain ⟨hfiles, hlost⟩ := tryWrite_success hwrite
      cases hheader : writeHeader fmt outcomes
          { b with pages := b.pages ++ [⟨key, b.pages.length, true, page⟩] } (b.pages.length + 1) d₁ with
      | mk rc out =>
        obtain ⟨b₁, d₂⟩ := out
        rw [hheader] at h
        dsimp only at h
        split at h
        · rename_i hrc
          exact absurd (Prod.mk.inj h).1 hrc
        rename_i hrc
        rw [not_not.mp hrc] at hheader
        obtain ⟨rfl, hdata, hlost'⟩ := writeHeader_success hheader
        -- what was written to the double write file
        have hws : d₂.files.data = (afterWrites (Files.write fmt) d.files
            (.slot ⟨key, b.pages.length, true, page⟩ ::
              if b.pages.length + 1 > b.pageCnt then [.header (b.pages.length + 1)] else [])).data := by
          rw [hdata, hfiles]
          split <;> rfl
        dsimp only at h
        split at h
        · rename_i hfull
          rw [if_pos hfull]
          obtain ⟨hb', hdata', hlost''⟩ := flushPageOn_success h
          refine ⟨hb', ?_, (hlost.trans hlost').trans hlost''⟩
          rw [afterWrites_append]
          exact hdata'.trans (data_afterWrites hws _)
        · rename_i hroom
          rw [if_neg hroom]
          obtain ⟨-, hb⟩ := Prod.mk.inj h
          obtain ⟨rfl, rfl⟩ := Prod.mk.inj hb
          exact ⟨rfl, hws, hlost.trans hlost'⟩

/-- What is stored, seen from the data files. -/
theorem stored_congr {files files' : Files D} (h : files.data = files'.data) :
    stored b files = stored b files' := by
  funext key
  unfold stored
  rw [h]

theorem Tidy.addPageOn (htidy : Tidy b)
    (h : b.addPageOn fmt outcomes maxPages t key page d = (.success, b', d')) :
    Tidy b' ∧ Stores key page b d.files b' d'.files := by
  obtain ⟨rfl, hdata, -⟩ := addPageOn_success h
  obtain ⟨htidy', hpage, hothers⟩ := htidy.addPage fmt d.files maxPages key page t
  unfold Stores
  rw [stored_congr hdata]
  exact ⟨htidy', hpage, hothers⟩

/-! ## What is left behind -/

theorem flushLoop_success_iff : ∀ {ps : List (DoubleWritePage D)} {d : Disk D},
    (flushLoop fmt outcomes ps d).1 = .success ↔ leftBehind fmt outcomes ps d = []
  | [], _ => iff_of_true rfl rfl
  | p :: ps, d => by
    rw [flushLoop, leftBehind]
    by_cases hrc : (d.writePage fmt outcomes p).1 ≠ .success
    · dsimp only
      rw [if_pos hrc, if_pos hrc]
      exact iff_of_false hrc (List.cons_ne_nil _ _)
    · dsimp only
      rw [if_neg hrc, if_neg hrc]
      exact flushLoop_success_iff

/-- A loop that fails could not write a page to its data file. -/
theorem flushLoop_failure : ∀ {ps : List (DoubleWritePage D)} {d : Disk D},
    (flushLoop fmt outcomes ps d).1 ≠ .success → ∃ w ∈ (flushLoop fmt outcomes ps d).2.failures, w.BringsPage
  | [], _, h => absurd rfl h
  | p :: ps, d, h => by
    rw [flushLoop] at h ⊢
    by_cases hrc : (d.writePage fmt outcomes p).1 ≠ .success
    · dsimp only
      rw [if_pos hrc]
      refine ⟨.data p.key p.page, ?_, trivial⟩
      unfold Disk.writePage Disk.write at hrc ⊢
      split
      · rename_i hvalid
        rw [if_pos hvalid] at hrc
        split
        · rename_i hok
          rw [if_pos hok] at hrc
          exact absurd rfl hrc
        · exact List.mem_append_right _ (List.mem_singleton_self _)
      · rename_i hvalid
        rw [if_neg hvalid] at hrc
        exact absurd rfl hrc
    · dsimp only at h ⊢
      rw [if_neg hrc] at h ⊢
      exact flushLoop_failure h

/-- The pages that are not left behind are in their files. -/
theorem flushLoop_data : ∀ {ps : List (DoubleWritePage D)} {d : Disk D}, (∀ p ∈ ps, p.valid = true) →
    (∀ p ∈ ps, p.key = key → p.page = page) → (∀ p ∈ leftBehind fmt outcomes ps d, p.key ≠ key) →
    ((∃ p ∈ ps, p.key = key) ∨ d.files.data key = some page) →
      (flushLoop fmt outcomes ps d).2.files.data key = some page
  | [], _, _, _, _, h => h.resolve_left fun ⟨_, hp, _⟩ => absurd hp List.not_mem_nil
  | p :: ps, d, hvalid, hpage, hleft, h => by
    rw [flushLoop]
    rw [leftBehind] at hleft
    have hpageOf : d.writePage fmt outcomes p = d.write fmt outcomes (.data p.key p.page) :=
      if_pos (hvalid p List.mem_cons_self)
    rw [hpageOf] at hleft ⊢
    cases hwrite : d.write fmt outcomes (.data p.key p.page) with
    | mk rc d₁ =>
      rw [hwrite] at hleft
      dsimp only at hleft ⊢
      split
      · rename_i hrc
        rw [if_pos hrc] at hleft
        have hdata : d₁.files.data = d.files.data := by
          unfold Disk.write at hwrite
          split at hwrite
          · exact absurd (Prod.mk.inj hwrite).1.symm hrc
          · obtain ⟨-, rfl⟩ := Prod.mk.inj hwrite
            rfl
        rw [hdata]
        exact h.resolve_left fun ⟨q, hq, hkey⟩ => hleft q hq hkey
      · rename_i hrc
        rw [if_neg hrc] at hleft
        rw [not_not.mp hrc] at hwrite
        obtain ⟨hfiles, -⟩ := tryWrite_success hwrite
        obtain ⟨hslot, -⟩ := tryWrite_invalid fmt outcomes d₁ p
        refine flushLoop_data (fun q hq => hvalid q (List.mem_cons_of_mem p hq))
          (fun q hq => hpage q (List.mem_cons_of_mem p hq)) hleft ?_
        rw [hslot, hfiles]
        show _ ∨ writeData fmt d.files.data p.key p.page key = some page
        unfold writeData
        by_cases hkey : key = p.key
        · rw [if_pos hkey, hpage p List.mem_cons_self hkey.symm]
          exact Or.inr rfl
        · rw [if_neg hkey]
          rcases h with ⟨q, hq, hqkey⟩ | hdata
          · rcases List.mem_cons.mp hq with rfl | hq
            · exact absurd hqkey.symm hkey
            · exact Or.inl ⟨q, hq, hqkey⟩
          · rw [if_neg, hdata]
            · exact Or.inr rfl
            · rintro ⟨-, -, hnone⟩
              rw [hdata] at hnone
              cases hnone

end Success

end Miniob.Buffer
