/-
  The map of the double write buffer after a write that fails (`flush_page`, `write_page` and
  `clear_pages` of src/observer/storage/buffer/double_write_buffer.cpp).

  1. Both functions are one loop over pages (`writeLoop`): write a page to its data file, mark its slot
     invalid, go on with the next page, and stop at the first page that cannot be written.
  2. `flush_page` frees each page behind its write, but takes the pages out of the map only after the
     last one.  If the loop stops behind the first page, the map holds freed pages.
  3. `clear_pages` takes all pages of the pool out of the map before the loop, frees them behind it, and
     returns SUCCESS.  If the loop stops, the pages it has not come to are gone.
  4. `no_page_lost_iff`: so `flush_page` loses nothing if every write succeeds or the first one fails,
     and `clear_pages` if every write succeeds.
-/
import Miniob.Buffer.WriteOutcomes

namespace Miniob.Buffer

open Miniob.Common Miniob.Storage

variable {D : Type}

/-! ## The code -/

/-- An entry of the map: the page, and whether it has not been freed. -/
structure MapEntry (D : Type) where
  page : DoubleWritePage D
  live : Bool

/-- What a function returns, the map it leaves, and the disk. -/
structure AfterWrites (D : Type) where
  rc : RC
  entries : List (MapEntry D)
  disk : Disk D

section Code

variable (fmt : PageFormat D) (outcomes : Outcomes) (t : Traversal D)

/-- The loop over pages that are written if they pass `test`; in the middle the pages it is done with. -/
def writeLoop (test : DoubleWritePage D → Bool) :
    List (DoubleWritePage D) → Disk D → RC × List (DoubleWritePage D) × Disk D
  | [], d => (.success, [], d)
  | p :: ps, d =>
    let (rc, d) := if test p then d.write fmt outcomes (.data p.key p.page) else (.success, d)
    if rc ≠ .success then (rc, [], d)
    else
      let (rc, done, d) := writeLoop test ps (d.write fmt outcomes (.slot { p with valid := false })).2
      (rc, p :: done, d)

namespace DiskDoubleWriteBuffer

/-- The entries while `flush_page` goes through them: those it is done with have been freed. -/
def flushed (ps done : List (DoubleWritePage D)) : List (MapEntry D) :=
  done.map (fun p => ⟨{ p with valid := false }, false⟩) ++ (ps.drop done.length).map fun p => ⟨p, true⟩

/-- `flush_page`; `write_page` skips a page that is not valid. -/
def flushMap (b : DiskDoubleWriteBuffer D) (d : Disk D) : AfterWrites D :=
  let (rc, done, d) := writeLoop fmt outcomes DoubleWritePage.valid (t.order b.pages) d
  if rc ≠ .success then ⟨rc, flushed (t.order b.pages) done, d⟩ else ⟨.success, [], d⟩

/-- `clear_pages`. -/
def clearMap (b : DiskDoubleWriteBuffer D) (bufferPoolId : Int) (d : Disk D) : AfterWrites D :=
  let kept := b.pages.filter fun p => p.key.bufferPoolId ≠ bufferPoolId
  let (_, _, d) := writeLoop fmt outcomes (fun _ => true) (b.specPages bufferPoolId t) d
  ⟨.success, kept.map fun p => ⟨p, true⟩, d⟩

end DiskDoubleWriteBuffer

end Code

/-! ## What must hold -/

def Write.toDataFile : Write D → Bool
  | .data _ _ => true
  | _ => false

/-- The writes to data files that have failed. -/
def Disk.dataFailures (d : Disk D) : List (Write D) := d.failures.filter Write.toDataFile

/-- Nothing is lost: a page that is to be written is found in the map or has come to its data file, a
    write to a data file that failed is reported, and no entry of the map has been freed. -/
structure NothingLost (b : DiskDoubleWriteBuffer D) (d : Disk D) (out : AfterWrites D) : Prop where
  kept : ∀ p ∈ b.pages, p.valid = true →
    ⟨p, true⟩ ∈ out.entries ∨ out.disk.files.data p.key = some p.page
  reported : out.disk.dataFailures ≠ d.dataFailures → out.rc ≠ .success
  live : ∀ e ∈ out.entries, e.live = true

/-! ## The loop -/

section Loop

open DiskDoubleWriteBuffer

variable {fmt : PageFormat D} {outcomes : Outcomes} {t : Traversal D} {d : Disk D}
  {test : DoubleWritePage D → Bool} {p : DoubleWritePage D} {ps : List (DoubleWritePage D)}
  {key : DoubleWritePageKey} {page : Page D}

/-- How many writes are tried for pages that can all be written. -/
def tries (test : DoubleWritePage D → Bool) (ps : List (DoubleWritePage D)) : Nat :=
  (ps.map fun p => if test p then 2 else 1).sum

/-- Each page that passes `test` can be written, if those before it could. -/
def AllSucceed (outcomes : Outcomes) (test : DoubleWritePage D → Bool) (tried : Nat)
    (ps : List (DoubleWritePage D)) : Prop :=
  ∀ pre p post, ps = pre ++ p :: post → test p = true → outcomes (tried + tries test pre) = true

/-- The first page passes `test` and cannot be written. -/
def FirstFails (outcomes : Outcomes) (test : DoubleWritePage D → Bool) (tried : Nat)
    (ps : List (DoubleWritePage D)) : Prop :=
  ∃ p post, ps = p :: post ∧ test p = true ∧ outcomes tried = false

theorem tried_write (d : Disk D) (w : Write D) : (d.write fmt outcomes w).2.tried = d.tried + 1 := by
  unfold Disk.write
  split <;> rfl

/-- A write elsewhere leaves a page where it is. -/
theorem data_write {w : Write D} (hw : ∀ page', w ≠ .data key page') (h : d.files.data key = some page) :
    (d.write fmt outcomes w).2.files.data key = some page := by
  unfold Disk.write
  split
  · cases w with
    | header pageCnt => exact h
    | slot p => exact h
    | data key' page' =>
      have hkey : key ≠ key' := fun heq => hw page' (by rw [heq])
      show writeData fmt d.files.data key' page' key = some page
      unfold writeData
      rw [if_neg hkey, if_neg, h]
      rintro ⟨-, -, hnone⟩
      rw [h] at hnone
      cases hnone
  · exact h

theorem dataFailures_slot (d : Disk D) (p : DoubleWritePage D) :
    (d.write fmt outcomes (.slot p)).2.dataFailures = d.dataFailures := by
  unfold Disk.write
  split
  · rfl
  · simp [Disk.dataFailures, Write.toDataFile]

/-- The disk behind the writes for one page. -/
def pageDone (fmt : PageFormat D) (outcomes : Outcomes) (test : DoubleWritePage D → Bool)
    (p : DoubleWritePage D) (d : Disk D) : Disk D :=
  ((if test p then d.write fmt outcomes (.data p.key p.page) else (.success, d)).2.write fmt outcomes
    (.slot { p with valid := false })).2

theorem write_of_success {w : Write D} (h : outcomes d.tried = true) : d.write fmt outcomes w
    = (.success, { d with files := d.files.write fmt w, tried := d.tried + 1 }) := if_pos h

/-- The first page in the loop, if it is done with. -/
theorem writeLoop_go (h : test p = true → outcomes d.tried = true) :
    writeLoop fmt outcomes test (p :: ps) d
      = ((writeLoop fmt outcomes test ps (pageDone fmt outcomes test p d)).1,
        p :: (writeLoop fmt outcomes test ps (pageDone fmt outcomes test p d)).2.1,
        (writeLoop fmt outcomes test ps (pageDone fmt outcomes test p d)).2.2) := by
  rw [writeLoop, pageDone]
  cases htest : test p with
  | true =>
    rw [if_pos rfl, write_of_success (h htest)]
    rfl
  | false =>
    rw [if_neg Bool.false_ne_true]
    rfl

theorem tried_pageDone (p : DoubleWritePage D) (d : Disk D) :
    (pageDone fmt outcomes test p d).tried = d.tried + if test p then 2 else 1 := by
  rw [pageDone, tried_write]
  split
  · rw [tried_write]
  · rfl

/-- A write that succeeds is no failure. -/
theorem dataFailures_pageDone (h : test p = true → outcomes d.tried = true) :
    (pageDone fmt outcomes test p d).dataFailures = d.dataFailures := by
  rw [pageDone, dataFailures_slot]
  split
  · rename_i htest
    rw [write_of_success (h htest)]
    rfl
  · rfl

theorem data_pageDone (htest : test p = true) (h : outcomes d.tried = true) :
    (pageDone fmt outcomes test p d).files.data p.key = some p.page := by
  rw [pageDone, if_pos htest, write_of_success h]
  exact data_write nofun (if_pos rfl)

theorem data_pageDone_of_ne (hkey : key ≠ p.key) (h : d.files.data key = some page) :
    (pageDone fmt outcomes test p d).files.data key = some page := by
  refine data_write nofun ?_
  split
  · exact data_write (fun page' heq => hkey (Write.data.inj heq).1.symm) h
  · exact h

/-- The first page in the loop, if it cannot be written. -/
theorem writeLoop_stop (htest : test p = true) (h : outcomes d.tried = false) :
    writeLoop fmt outcomes test (p :: ps) d = (.ioerrWrite, [],
      { d with tried := d.tried + 1, failures := d.failures ++ [.data p.key p.page] }) := by
  have hwrite : d.write fmt outcomes (.data p.key p.page) = (.ioerrWrite,
      { d with tried := d.tried + 1, failures := d.failures ++ [.data p.key p.page] }) :=
    if_neg (by rw [h]; exact Bool.false_ne_true)
  rw [writeLoop, if_pos htest, hwrite]
  exact if_pos (by decide)

/-- All writes of a loop succeed: those of the first page, and then the others. -/
theorem allSucceed_cons {tried : Nat} : AllSucceed outcomes test tried (p :: ps) ↔
    (test p = true → outcomes tried = true) ∧
      AllSucceed outcomes test (tried + if test p then 2 else 1) ps := by
  constructor
  · intro h
    refine ⟨fun htest => h [] p ps rfl htest, fun pre q post heq htest => ?_⟩
    have hq := h (p :: pre) q post (by rw [heq, List.cons_append]) htest
    rwa [tries, List.map_cons, List.sum_cons, ← Nat.add_assoc] at hq
  · rintro ⟨hfirst, hrest⟩ pre q post heq htest
    cases pre with
    | nil =>
      obtain ⟨rfl, -⟩ := List.cons.inj heq
      exact hfirst htest
    | cons a pre =>
      obtain ⟨rfl, rfl⟩ := List.cons.inj heq
      have hq := hrest pre q post rfl htest
      rwa [tries, List.map_cons, List.sum_cons, ← Nat.add_assoc]

/-- What is known behind the loop. -/
structure LoopEnds (fmt : PageFormat D) (outcomes : Outcomes) (test : DoubleWritePage D → Bool)
    (ps : List (DoubleWritePage D)) (d : Disk D) (rc : RC) (done : List (DoubleWritePage D))
    (d' : Disk D) : Prop where
  /-- The loop succeeds if every page does. -/
  success_iff : rc = .success ↔ AllSucceed outcomes test d.tried ps
  done_of_success : rc = .success → done = ps
  /-- It has stopped in front of a page. -/
  stopped : rc ≠ .success → ∃ rest, rest ≠ [] ∧ ps = done ++ rest
  /-- No page is done exactly if the first one fails. -/
  first : rc ≠ .success → (done = [] ↔ FirstFails outcomes test d.tried ps)
  /-- A failure has been counted exactly if the loop has failed. -/
  failures : d'.dataFailures = d.dataFailures ↔ rc = .success
  /-- What was tried and tested is in the file. -/
  written : ∀ p ∈ done, test p = true → d'.files.data p.key = some p.page
  /-- Other pages stay as they are. -/
  elsewhere : ∀ key page, (∀ p ∈ ps, p.key ≠ key) → d.files.data key = some page →
    d'.files.data key = some page

/-- **Run.**  Behind the loop, for pages with different keys. -/
theorem writeLoop_ends : ∀ {ps : List (DoubleWritePage D)} {d : Disk D},
    (ps.map DoubleWritePage.key).Nodup →
      LoopEnds fmt outcomes test ps d (writeLoop fmt outcomes test ps d).1
        (writeLoop fmt outcomes test ps d).2.1 (writeLoop fmt outcomes test ps d).2.2
  | [], d, _ => by
    refine ⟨iff_of_true rfl fun pre p post heq => ?_, fun _ => rfl, fun h => absurd rfl h,
      fun h => absurd rfl h, iff_of_true rfl rfl, fun p hp => absurd hp List.not_mem_nil,
      fun _ _ _ h => h⟩
    exact absurd heq.symm (List.append_ne_nil_of_right_ne_nil _ (List.cons_ne_nil _ _))
  | p :: ps, d, hkeys => by
    rw [List.map_cons, List.nodup_cons] at hkeys
    obtain ⟨hfresh, hkeys⟩ := hkeys
    have hother : ∀ q ∈ ps, q.key ≠ p.key := fun q hq heq => hfresh (heq ▸ List.mem_map_of_mem hq)
    by_cases hgo : test p = true → outcomes d.tried = true
    · -- the page is done with: what holds behind the rest of the loop holds behind it
      have ih := writeLoop_ends (d := pageDone fmt outcomes test p d) hkeys
      rw [writeLoop_go hgo]
      refine ⟨?_, fun hrc => congrArg (p :: ·) (ih.done_of_success hrc), fun hrc => ?_, fun _ => ?_,
        ?_, fun q hq htest => ?_, fun key page hnot hdata => ?_⟩
      · rw [ih.success_iff, allSucceed_cons, tried_pageDone]
        exact (and_iff_right hgo).symm
      · obtain ⟨rest, hne, hps⟩ := ih.stopped hrc
        exact ⟨rest, hne, congrArg (p :: ·) hps⟩
      · refine iff_of_false (List.cons_ne_nil _ _) ?_
        rintro ⟨q, post, hq, htest, hfail⟩
        obtain ⟨rfl, -⟩ := List.cons.inj hq
        rw [hgo htest] at hfail
        cases hfail
      · rw [← dataFailures_pageDone hgo]
        exact ih.failures
      · rcases List.mem_cons.mp hq with rfl | hq
        · exact ih.elsewhere _ _ hother (data_pageDone htest (hgo htest))
        · exact ih.written q hq htest
      · rw [List.forall_mem_cons] at hnot
        exact ih.elsewhere key page hnot.2 (data_pageDone_of_ne hnot.1.symm hdata)
    · -- the loop stops in front of the page
      rw [Classical.not_imp, Bool.not_eq_true] at hgo
      obtain ⟨htest, hfail⟩ := hgo
      rw [writeLoop_stop htest hfail]
      have hrc : RC.ioerrWrite ≠ RC.success := by decide
      have hfirst : FirstFails outcomes test d.tried (p :: ps) := ⟨p, ps, rfl, htest, hfail⟩
      refine ⟨iff_of_false hrc fun hall => ?_, fun h => absurd h hrc,
        fun _ => ⟨p :: ps, List.cons_ne_nil _ _, rfl⟩, fun _ => iff_of_true rfl hfirst,
        iff_of_false (fun heq => ?_) hrc, fun q hq => absurd hq List.not_mem_nil,
        fun _ _ _ h => h⟩
      · rw [(allSucceed_cons.mp hall).1 htest] at hfail
        cases hfail
      · have hlen := congrArg List.length heq
        simp [Disk.dataFailures, Write.toDataFile] at hlen

/-- The loop of `flush_page` is that of the buffer on a disk. -/
theorem writeLoop_eq_flushLoop : ∀ (ps : List (DoubleWritePage D)) (d : Disk D),
    (writeLoop fmt outcomes DoubleWritePage.valid ps d).1 = (flushLoop fmt outcomes ps d).1 ∧
      (writeLoop fmt outcomes DoubleWritePage.valid ps d).2.2 = (flushLoop fmt outcomes ps d).2
  | [], d => ⟨rfl, rfl⟩
  | p :: ps, d => by
    rw [writeLoop, flushLoop, Disk.writePage]
    by_cases hrc : (if p.valid then d.write fmt outcomes (.data p.key p.page) else (.success, d)).1
        ≠ .success
    · dsimp only
      rw [if_pos hrc, if_pos hrc]
      exact ⟨rfl, rfl⟩
    · dsimp only
      rw [if_neg hrc, if_neg hrc]
      exact writeLoop_eq_flushLoop ps _

end Loop

/-! ## What is lost -/

section Lost

open DiskDoubleWriteBuffer

variable {fmt : PageFormat D} {outcomes : Outcomes} {t : Traversal D} {b : DiskDoubleWriteBuffer D}
  {bufferPoolId : Int} {d : Disk D}

theorem mem_specPages {p : DoubleWritePage D} : p ∈ b.specPages bufferPoolId t ↔
    p ∈ b.pages ∧ p.key.bufferPoolId = bufferPoolId := by
  rw [specPages, List.mem_mergeSort, List.mem_filter, (t.perm _).mem_iff, decide_eq_true_iff]

theorem nodup_order (hkeys : (b.pages.map DoubleWritePage.key).Nodup) :
    ((t.order b.pages).map DoubleWritePage.key).Nodup :=
  ((t.perm b.pages).map _).nodup_iff.mpr hkeys

theorem nodup_specPages (hkeys : (b.pages.map DoubleWritePage.key).Nodup) :
    ((b.specPages bufferPoolId t).map DoubleWritePage.key).Nodup := by
  have hfilter := (nodup_order (t := t) hkeys).sublist
    ((List.filter_sublist (p := fun p => decide (p.key.bufferPoolId = bufferPoolId))).map _)
  exact ((List.mergeSort_perm _ _).map _).nodup_iff.mpr hfilter

/-- `flush_page` loses nothing if all writes succeed or the first one fails. -/
theorem flushMap_nothingLost_iff (hkeys : (b.pages.map DoubleWritePage.key).Nodup) :
    NothingLost b d (b.flushMap fmt outcomes t d) ↔
      AllSucceed outcomes DoubleWritePage.valid d.tried (t.order b.pages) ∨
        FirstFails outcomes DoubleWritePage.valid d.tried (t.order b.pages) := by
  have hends := @writeLoop_ends _ fmt outcomes DoubleWritePage.valid _ d (nodup_order (t := t) hkeys)
  have hmem : ∀ {p}, p ∈ t.order b.pages ↔ p ∈ b.pages := (t.perm b.pages).mem_iff
  rw [flushMap]
  generalize writeLoop fmt outcomes DoubleWritePage.valid (t.order b.pages) d = out at hends ⊢
  obtain ⟨rc, done, d'⟩ := out
  dsimp only at hends ⊢
  by_cases hrc : rc = .success
  · rw [if_neg (not_not.mpr hrc)]
    refine iff_of_true ⟨fun p hp hvalid => Or.inr ?_, fun hfail => ?_, fun e he => ?_⟩
      (Or.inl (hends.success_iff.mp hrc))
    · refine hends.written p ?_ hvalid
      rw [hends.done_of_success hrc]
      exact hmem.mpr hp
    · exact absurd (hends.failures.mpr hrc) hfail
    · exact absurd he List.not_mem_nil
  · rw [if_pos hrc, ← hends.success_iff, or_iff_right hrc, ← hends.first hrc]
    constructor
    · -- a page that the loop was done with has been freed and is still in the map
      intro h
      cases done with
      | nil => rfl
      | cons p done => exact absurd (h.live _ List.mem_cons_self) Bool.false_ne_true
    · rintro rfl
      refine ⟨fun p hp _ => Or.inl ?_, fun _ => hrc, fun e he => ?_⟩
      · exact List.mem_map.mpr ⟨p, hmem.mpr hp, rfl⟩
      · obtain ⟨p, -, rfl⟩ := List.mem_map.mp he
        rfl

/-- `clear_pages` loses nothing if all writes succeed. -/
theorem clearMap_nothingLost_iff (hkeys : (b.pages.map DoubleWritePage.key).Nodup) :
    NothingLost b d (b.clearMap fmt outcomes t bufferPoolId d) ↔
      AllSucceed outcomes (fun _ => true) d.tried (b.specPages bufferPoolId t) := by
  have hends := @writeLoop_ends _ fmt outcomes (fun _ => true) _ d
    (@nodup_specPages _ t _ bufferPoolId hkeys)
  rw [clearMap]
  generalize writeLoop fmt outcomes (fun _ => true) (b.specPages bufferPoolId t) d = out at hends ⊢
  obtain ⟨rc, done, d'⟩ := out
  dsimp only at hends ⊢
  rw [← hends.success_iff]
  constructor
  · intro h
    by_contra hrc
    exact h.reported (fun heq => hrc (hends.failures.mp heq)) rfl
  · intro hrc
    refine ⟨fun p hp hvalid => ?_, fun hfail => absurd (hends.failures.mpr hrc) hfail, fun e he => ?_⟩
    · by_cases hpool : p.key.bufferPoolId = bufferPoolId
      · refine Or.inr (hends.written p ?_ rfl)
        rw [hends.done_of_success hrc]
        exact mem_specPages.mpr ⟨hp, hpool⟩
      · exact Or.inl (List.mem_map.mpr
          ⟨p, List.mem_filter.mpr ⟨hp, decide_eq_true hpool⟩, rfl⟩)
    · obtain ⟨p, -, rfl⟩ := List.mem_map.mp he
      rfl

end Lost

/-- **No page is lost when a write fails.**  For any map, any order in which it is traversed and any
    outcomes: `flush_page` loses nothing if and only if every write to a data file succeeds or the first
    page cannot be written, and `clear_pages` if and only if every write succeeds. -/
theorem no_page_lost_iff (fmt : PageFormat D) (outcomes : Outcomes) (t : Traversal D)
    (b : DiskDoubleWriteBuffer D) (bufferPoolId : Int) (d : Disk D)
    (hkeys : (b.pages.map DoubleWritePage.key).Nodup) :
    (NothingLost b d (b.flushMap fmt outcomes t d) ↔
      AllSucceed outcomes DoubleWritePage.valid d.tried (t.order b.pages) ∨
        FirstFails outcomes DoubleWritePage.valid d.tried (t.order b.pages)) ∧
    (NothingLost b d (b.clearMap fmt outcomes t bufferPoolId d) ↔
      AllSucceed outcomes (fun _ => true) d.tried (b.specPages bufferPoolId t)) :=
  ⟨flushMap_nothingLost_iff hkeys, clearMap_nothingLost_iff hkeys⟩

/-! ## Two pages of a pool -/

/-- The data of a page is a number here. -/
def plainFormat : PageFormat Nat := ⟨fun _ => 0, 0⟩

def twoPages : DiskDoubleWriteBuffer Nat :=
  ⟨[⟨⟨0, 1⟩, 0, true, ⟨1, 0, 7⟩⟩, ⟨⟨0, 2⟩, 1, true, ⟨2, 0, 8⟩⟩], 2⟩

def emptyDisk : Disk Nat := ⟨⟨2, fun _ => none, fun _ => none⟩, 0, []⟩

theorem twoPages_nodup : (twoPages.pages.map DoubleWritePage.key).Nodup := by decide

theorem no_page_lost_iff_two :
    NothingLost twoPages emptyDisk (twoPages.flushMap plainFormat (fun n => n != 0) .inserted emptyDisk) :=
  (no_page_lost_iff plainFormat (fun n => n != 0) .inserted twoPages 0 emptyDisk twoPages_nodup).1.mpr
    (Or.inr ⟨_, _, rfl, rfl, rfl⟩)

/-- The second page cannot be written: `flush_page` leaves the first one in the map, freed, and
    `clear_pages` loses the second one and returns SUCCESS. -/
theorem second_write_fails :
    ¬ NothingLost twoPages emptyDisk (twoPages.flushMap plainFormat (fun n => n != 2) .inserted emptyDisk) ∧
      ¬ NothingLost twoPages emptyDisk
        (twoPages.clearMap plainFormat (fun n => n != 2) .inserted 0 emptyDisk) := by
  have hnot : ∀ test : DoubleWritePage Nat → Bool, (∀ p ∈ twoPages.pages, test p = true) →
      ¬ AllSucceed (fun n => n != 2) test 0 twoPages.pages := by
    intro test htest hall
    have hsecond := hall [_] _ [] rfl (htest _ (by simp [twoPages]))
    rw [tries, List.map_cons, if_pos (htest _ (by simp [twoPages]))] at hsecond
    simp at hsecond
  constructor
  · intro h
    rcases (flushMap_nothingLost_iff twoPages_nodup).mp h with hall | ⟨p, post, hps, -, hfail⟩
    · exact hnot _ (by decide) hall
    · cases hfail
  · intro h
    have hall := (clearMap_nothingLost_iff twoPages_nodup).mp h
    have hspec : twoPages.specPages 0 .inserted = twoPages.pages :=
      List.mergeSort_of_pairwise (by decide)
    rw [hspec] at hall
    exact hnot _ (fun _ _ => rfl) hall

end Miniob.Buffer
