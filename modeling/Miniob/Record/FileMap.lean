/-
  A record file is a finite map from record identifiers to bytes.

  `RecordFileHandler.map` reads the map off the pages, `MapStep` says what each call may do to a map,
  and `BehavesAsMap` that a call does it.  `FileOk` is the invariant: every page is laid out as it
  should be, and the pages in `free_pages_` are pages of the file.

  `delete_record` does not compare the slot number with the capacity of the page, as the other
  operations do.  So a deletion behind the last slot reads a bit of a record: if it is set, the bit is
  cleared, the number of records goes down, and the call succeeds.  A call behaves as on a map exactly
  if that does not happen (`Call.InRange`).
-/
import Mathlib.Logic.Function.Basic
import Miniob.Record.RecordFileHandler

namespace Miniob.Record

open Miniob.Common Miniob.Storage

abbrev FileMap := RID → Option (List UInt8)

variable {n : Nat}

/-- What a call answers and does to a map.  `served` are the identifiers whose page is fetched, `slots`
    those for which the file has a place, and `room` says that nothing speaks against one more record. -/
def MapStep (served slots : RID → Prop) (room : Prop) (m : FileMap) (call : Call n) (answer : Answer)
    (m' : FileMap) : Prop :=
  match call with
  | .insertRecord data =>
    (answer.rc = .success ∧ ∃ rid, answer.rid = some rid ∧ m rid = none ∧
      m' = Function.update m rid (some data.val)) ∨
    (answer.rc ≠ .success ∧ answer.rid = none ∧ m' = m ∧ ¬ room)
  | .recoverInsertRecord data rid =>
    (answer.rc = .success ↔ slots rid) ∧
      m' = if answer.rc = .success then Function.update m rid (some data.val) else m
  | .deleteRecord rid =>
    (answer.rc = .success ↔ served rid ∧ (m rid).isSome) ∧
      m' = if answer.rc = .success then Function.update m rid none else m
  | .updateRecord data rid =>
    (answer.rc = .success ↔ served rid ∧ (m rid).isSome) ∧
      m' = if answer.rc = .success then Function.update m rid (some data.val) else m
  | .getRecord rid =>
    (answer.rc = .success ↔ served rid ∧ (m rid).isSome) ∧
      answer.record = (if answer.rc = .success then m rid else none) ∧ m' = m
  | .visitRecord rid updater =>
    (answer.rc = .success ↔ served rid ∧ (m rid).isSome) ∧
      answer.record = (if answer.rc = .success then m rid else none) ∧
      m' = answer.record.elim m fun record =>
        if (updater.apply record).1 then Function.update m rid (some (updater.apply record).2) else m
  | .reopen => m' = m

namespace RecordFileHandler

variable (s : RecordFileHandler) (env : Environment)

/-- The map a file is. -/
def map : FileMap := fun rid => (s.page rid.pageNum).bind fun page => page.lookup rid.slotNum

/-- The record identifiers with a slot on a page that is fetched. -/
def IsSlot (rid : RID) : Prop :=
  ∃ page, s.init env rid.pageNum = .ok page ∧ rid.slotNum < page.header.recordCapacity

/-- All pages are fetched, the log takes a new page, the file may grow, and a record fits a page. -/
def Room (n : Nat) : Prop :=
  (∀ pageNum, env.getThisPage pageNum = .success) ∧ env.initNewPage = .success ∧
    s.pages.length + 1 < Buffer.maxPageNum ∧ 0 < (RecordPage.initEmptyPage n).header.recordCapacity

/-- The call is answered as on a map, and the map is changed so. -/
def BehavesAsMap (o : Environment × Call n) : Prop :=
  ∃ answer s', s.step o = .ok (answer, s') ∧
    MapStep (fun rid => o.1.getThisPage rid.pageNum = .success) (s.IsSlot o.1) (s.Room o.1 n) s.map o.2
      answer s'.map

/-- The number of records of each page is the number of bits that are set, and no more than the page
    has slots. -/
def Counted : Prop := ∀ page ∈ s.pages,
  page.header.recordNum = page.bitmap.setBits page.mem ∧
    page.header.recordNum ≤ page.header.recordCapacity

/-- No call goes to page 0, a page is not asked for a slot with a negative number, and a deletion
    behind the last slot reads a clear bit of the page. -/
def InRange (o : Environment × Call n) : Prop :=
  ∀ rid, o.2.rid = some rid → rid.pageNum ≠ 0 ∧
    ∀ page, s.init o.1 rid.pageNum = .ok page → 0 ≤ rid.slotNum ∧
      (o.2 = .deleteRecord rid → rid.slotNum < page.header.recordCapacity ∨
        page.getBit rid.slotNum = some false)

/-- Every page is laid out for records of `n` bytes, and free pages are pages of the file. -/
structure Ok (n : Nat) (s : RecordFileHandler) : Prop where
  pages : ∀ page ∈ s.pages, PageOk n page
  free : ∀ pageNum ∈ s.freePages, (s.page pageNum).isSome

/-! ## Pages of a file -/

variable {s env} {pageNum q : Int} {pg pg' : RecordPage}

theorem mem_of_page (h : s.page pageNum = some pg) : pg ∈ s.pages := by
  unfold RecordFileHandler.page at h
  split at h
  · exact List.mem_of_getElem? h
  · cases h

theorem Ok.page (h : s.Ok n) (hp : s.page pageNum = some pg) : PageOk n pg :=
  h.pages pg (mem_of_page hp)

/-- One page is written, and the others stay. -/
theorem page_setPage (hp : s.page pageNum = some pg) :
    (s.setPage pageNum pg').page q = if q = pageNum then some pg' else s.page q := by
  unfold RecordFileHandler.page at hp ⊢
  split at hp
  · rename_i hpos
    obtain ⟨hlt, -⟩ := List.getElem?_eq_some_iff.mp hp
    unfold setPage
    by_cases hq : 0 < q
    · rw [if_pos hq, if_pos hq, List.getElem?_set]
      by_cases heq : q = pageNum
      · rw [heq, if_pos rfl, if_pos rfl, if_pos hlt]
      · rw [if_neg heq, if_neg (by omega)]
    · rw [if_neg hq, if_neg (by omega), if_neg hq]
  · cases hp

theorem map_setPage (hp : s.page pageNum = some pg) (rid : RID) :
    (s.setPage pageNum pg').map rid
      = if rid.pageNum = pageNum then pg'.lookup rid.slotNum else s.map rid := by
  unfold map
  rw [page_setPage hp]
  split <;> rfl

theorem map_eq (rid : RID) (hp : s.page rid.pageNum = some pg) :
    s.map rid = pg.lookup rid.slotNum := by
  unfold map
  rw [hp]
  rfl

/-- The file is sound if the new page is. -/
theorem Ok.setPage (h : s.Ok n) (hp : s.page pageNum = some pg) (hok : PageOk n pg') :
    (s.setPage pageNum pg').Ok n where
  pages page'' hmem := by
    rcases List.mem_or_eq_of_mem_set hmem with hmem | rfl
    · exact h.pages page'' hmem
    · exact hok
  free q hq := by
    rw [page_setPage hp]
    split
    · rfl
    · exact h.free q hq

/-- A slot of a page was written. -/
theorem map_setSlot (rid : RID) {d : Option (List UInt8)} (hp : s.page rid.pageNum = some pg)
    (hlook : ∀ slotNum, pg'.lookup slotNum
      = if slotNum = rid.slotNum then d else pg.lookup slotNum) :
    (s.setPage rid.pageNum pg').map = Function.update s.map rid d := by
  funext rid'
  rw [map_setPage hp]
  by_cases hrid : rid' = rid
  · rw [hrid, if_pos rfl, hlook, if_pos rfl, Function.update_self]
  · rw [Function.update_of_ne hrid]
    split
    · rename_i hpage
      have hslot : rid'.slotNum ≠ rid.slotNum := by
        intro hslot
        obtain ⟨p', q'⟩ := rid'
        obtain ⟨p, q⟩ := rid
        exact hrid (by rw [show p' = p from hpage, show q' = q from hslot])
      rw [hlook, if_neg hslot, map_eq rid' (by rw [hpage]; exact hp)]
    · rfl

/-- No slot of a page was written. -/
theorem map_setSame (hp : s.page pageNum = some pg)
    (hlook : ∀ slotNum, pg'.lookup slotNum = pg.lookup slotNum) :
    (s.setPage pageNum pg').map = s.map := by
  funext rid
  rw [map_setPage hp]
  split
  · rename_i hpage
    rw [hlook, map_eq rid (by rw [hpage]; exact hp)]
  · rfl

/-- A page handler has its page. -/
theorem init_ok (h : s.init env pageNum = .ok pg) :
    s.page pageNum = some pg ∧ env.getThisPage pageNum = .success := by
  unfold init at h
  cases hp : s.page pageNum with
  | none =>
    rw [hp] at h
    cases h
  | some page'' =>
    rw [hp] at h
    dsimp only at h
    split at h
    · rename_i hserved
      obtain rfl := Except.ok.inj h
      exact ⟨rfl, hserved⟩
    · cases h

/-- If it has none, the page is not there or cannot be read. -/
theorem init_error {rc : RC} (h : s.init env pageNum = .error rc) :
    rc ≠ .success ∧ (s.page pageNum = none ∨ env.getThisPage pageNum ≠ .success) := by
  unfold init at h
  cases hp : s.page pageNum with
  | none =>
    rw [hp] at h
    obtain rfl := Except.error.inj h
    refine ⟨?_, Or.inl rfl⟩
    split <;> simp
  | some page'' =>
    rw [hp] at h
    dsimp only at h
    split at h
    · cases h
    · rename_i hserved
      obtain rfl := Except.error.inj h
      exact ⟨hserved, Or.inr hserved⟩

/-- On a page that is not fetched nothing is found. -/
theorem not_found {rid : RID} {rc : RC} (h : s.init env rid.pageNum = .error rc) :
    ¬ (env.getThisPage rid.pageNum = .success ∧ (s.map rid).isSome) := by
  rintro ⟨hserved, hsome⟩
  rcases (init_error h).2 with hnone | hrefused
  · unfold map at hsome
    rw [hnone] at hsome
    cases hsome
  · exact hrefused hserved

theorem map_insertFreePage : (s.insertFreePage env pageNum).map = s.map := rfl

theorem Ok.insertFreePage (h : s.Ok n) (hp : (s.page pageNum).isSome) :
    (s.insertFreePage env pageNum).Ok n where
  pages := h.pages
  free q hq := by
    rcases List.mem_insert_iff.mp ((env.perm _).mem_iff.mp hq) with rfl | hq
    · exact hp
    · exact h.free q hq

/-! ## Operations on a given record -/

/-- What deletion and update have in common: one slot of one page is changed. -/
theorem changeRecord_spec (h : s.Ok n) (rid : RID) (d : Option (List UInt8))
    (change : RecordPage → Option (RC × RecordPage))
    (hchange : ∀ pg, s.init env rid.pageNum = .ok pg → ∃ rc pg', change pg = some (rc, pg') ∧
      PageOk n pg' ∧ (rc = .success ↔ (pg.lookup rid.slotNum).isSome) ∧
      ∀ slotNum, pg'.lookup slotNum
        = if rc = .success ∧ slotNum = rid.slotNum then d else pg.lookup slotNum) :
    ∃ answer s', s.changeRecord env rid change = some (answer, s') ∧ s'.Ok n ∧
      (answer.rc = .success ↔ env.getThisPage rid.pageNum = .success ∧ (s.map rid).isSome) ∧
      s'.map = if answer.rc = .success then Function.update s.map rid d else s.map := by
  unfold changeRecord
  cases hinit : s.init env rid.pageNum with
  | error rc =>
    -- the page of the RID cannot be read: nothing is changed
    have hrc := (init_error hinit).1
    refine ⟨_, s, rfl, h, iff_of_false hrc (not_found hinit), ?_⟩
    rw [if_neg hrc]
  | ok pg =>
    -- the page is read, changed and put back
    obtain ⟨hp, hserved⟩ := init_ok hinit
    obtain ⟨rc, pg', hrun, hok, hrc, hlook⟩ := hchange pg hinit
    have hset := h.setPage hp hok
    dsimp only
    rw [hrun]
    rw [← map_eq rid hp] at hrc
    by_cases hsucc : rc = .success
    -- on success the page may have room again, and it joins the free pages
    · refine ⟨_, _, rfl, ?_, ?_, ?_⟩
      · rw [if_pos hsucc]
        refine hset.insertFreePage ?_
        rw [page_setPage hp, if_pos rfl]
        rfl
      · exact hrc.trans (by simp [hserved])
      · dsimp only
        rw [if_pos hsucc, if_pos hsucc, map_insertFreePage]
        refine map_setSlot rid hp fun slotNum => ?_
        rw [hlook]
        simp [hsucc]
    -- on failure every slot is as it was
    · refine ⟨_, _, rfl, ?_, ?_, ?_⟩
      · rw [if_neg hsucc]
        exact hset
      · exact hrc.trans (by simp [hserved])
      · dsimp only
        rw [if_neg hsucc, if_neg hsucc]
        refine map_setSame hp fun slotNum => ?_
        rw [hlook]
        simp [hsucc]

/-- Recovery puts the record where it was. -/
theorem recoverInsertRecord_spec (h : s.Ok n) {rid : RID} {data : List UInt8} (hlen : data.length = n)
    (hslot : ∀ pg, s.init env rid.pageNum = .ok pg → 0 ≤ rid.slotNum) :
    ∃ answer s', s.recoverInsertRecord env data rid = some (answer, s') ∧ s'.Ok n ∧
      (answer.rc = .success ↔ s.IsSlot env rid) ∧
      s'.map = if answer.rc = .success then Function.update s.map rid (some data) else s.map := by
  unfold recoverInsertRecord IsSlot
  cases hinit : s.init env rid.pageNum with
  | error rc =>
    have hrc := (init_error hinit).1
    refine ⟨_, s, rfl, h, iff_of_false hrc ?_, ?_⟩
    · rintro ⟨pg, hpg, -⟩
      cases hpg
    · rw [if_neg hrc]
  | ok pg =>
    obtain ⟨hp, -⟩ := init_ok hinit
    obtain ⟨rc, pg', hrun, hok, hrc, hlook⟩ :=
      (h.page hp).recoverInsertRecord_spec (hslot pg hinit) hlen
    dsimp only
    rw [hrun]
    refine ⟨_, _, rfl, h.setPage hp hok, hrc.trans ⟨fun hlt => ⟨pg, rfl, hlt⟩, ?_⟩, ?_⟩
    · rintro ⟨pg'', hpg, hlt⟩
      obtain rfl := Except.ok.inj hpg
      exact hlt
    · dsimp only
      split
      · rename_i hsucc
        refine map_setSlot rid hp fun slotNum => ?_
        rw [hlook]
        simp [hsucc]
      · rename_i hsucc
        refine map_setSame hp fun slotNum => ?_
        rw [hlook]
        simp [hsucc]

/-- A record is read if its page can be read and its slot is taken. -/
theorem getRecord_spec (h : s.Ok n) {rid : RID}
    (hslot : ∀ pg, s.init env rid.pageNum = .ok pg → 0 ≤ rid.slotNum) :
    ∃ answer, s.getRecord env rid = some (answer, s) ∧
      (answer.rc = .success ↔ env.getThisPage rid.pageNum = .success ∧ (s.map rid).isSome) ∧
      answer.record = if answer.rc = .success then s.map rid else none := by
  unfold getRecord
  cases hinit : s.init env rid.pageNum with
  | error rc =>
    have hrc := (init_error hinit).1
    exact ⟨_, rfl, iff_of_false hrc (not_found hinit), (if_neg hrc).symm⟩
  | ok pg =>
    obtain ⟨hp, hserved⟩ := init_ok hinit
    obtain ⟨rc, record, hrun, hrc, hrecord⟩ := (h.page hp).getRecord_spec (hslot pg hinit)
    dsimp only
    rw [hrun, map_eq rid hp]
    refine ⟨_, rfl, hrc.trans (by simp [hserved]), ?_⟩
    dsimp only
    split
    · rename_i hsucc
      exact (hrecord hsucc).1.symm
    · rfl

/-- A visitor may change the record, and nothing else. -/
theorem visitRecord_spec (h : s.Ok n) {rid : RID} (updater : Updater n)
    (hslot : ∀ pg, s.init env rid.pageNum = .ok pg → 0 ≤ rid.slotNum) :
    ∃ answer s', s.visitRecord env rid updater.apply = some (answer, s') ∧ s'.Ok n ∧
      (answer.rc = .success ↔ env.getThisPage rid.pageNum = .success ∧ (s.map rid).isSome) ∧
      answer.record = (if answer.rc = .success then s.map rid else none) ∧
      s'.map = answer.record.elim s.map fun record =>
        if (updater.apply record).1 then Function.update s.map rid (some (updater.apply record).2)
        else s.map := by
  unfold visitRecord
  -- the visitor is called on what the slot holds, and only its own answer makes it write
  cases hinit : s.init env rid.pageNum with
  | error rc =>
    have hrc := (init_error hinit).1
    exact ⟨_, s, rfl, h, iff_of_false hrc (not_found hinit), (if_neg hrc).symm, rfl⟩
  | ok pg =>
    obtain ⟨hp, hserved⟩ := init_ok hinit
    have hpage := h.page hp
    obtain ⟨rc, record, hrun, hrc, hrecord⟩ := hpage.getRecord_spec (hslot pg hinit)
    dsimp only
    rw [hrun]
    rw [← map_eq rid hp] at hrc hrecord
    by_cases hsucc : rc = .success
    · obtain ⟨hmap, hlen⟩ := hrecord hsucc
      dsimp only
      rw [if_neg (not_not.mpr hsucc)]
      -- the visitor has not changed the record
      cases hupdated : (updater.apply record).1 with
      | false =>
        refine ⟨_, s, if_neg Bool.false_ne_true, h, hrc.trans (by simp [hserved]), ?_, ?_⟩
        · exact hmap.symm.trans (if_pos hsucc).symm
        · simp [hupdated]
      -- the visitor has changed the record, and writing it back succeeds because reading it did
      | true =>
        obtain ⟨rc', pg', hrun', hok, hrc', hlook⟩ :=
          hpage.updateRecord_spec (hslot pg hinit) (updater.keeps record hlen)
        rw [← map_eq rid hp] at hrc'
        obtain rfl : rc' = .success := hrc'.mpr (hrc.mp hsucc)
        rw [if_pos rfl, hrun']
        refine ⟨_, _, rfl, h.setPage hp hok, hrc'.trans (by simp [hserved]), hmap.symm, ?_⟩
        simp only [Option.elim_some, hupdated, if_true]
        refine map_setSlot rid hp fun slotNum => ?_
        rw [hlook]
        simp
    · dsimp only
      rw [if_pos hsucc]
      exact ⟨_, s, rfl, h, hrc.trans (by simp [hserved]), (if_neg hsucc).symm, rfl⟩

/-! ## Insertion -/

/-- What is left in `free_pages_` was there before, and the page that is found is not full. -/
theorem findFreePage_spec (env : Environment) (free : List PageNum) (h : ∀ p ∈ free, (s.page p).isSome) :
    (∀ p ∈ (s.findFreePage env free).2, p ∈ free) ∧
    (∀ rc, (s.findFreePage env free).1 = .error rc →
      rc ≠ .success ∧ ∃ p, env.getThisPage p ≠ .success) ∧
    ∀ p pg, (s.findFreePage env free).1 = .ok (some (p, pg)) →
      s.page p = some pg ∧ pg.isFull = false := by
  induction free with
  | nil =>
    refine ⟨fun p hp => hp, fun rc hrc => ?_, fun p pg hfound => ?_⟩
    · cases hrc
    · cases hfound
  | cons p rest ih =>
    obtain ⟨hleft, herror, hfound⟩ := ih fun q hq => h q (List.mem_cons_of_mem p hq)
    rw [findFreePage]
    cases hinit : s.init env p with
    | error rc =>
      refine ⟨fun q hq => hq, fun rc' hrc => ?_, fun q pg hcon => ?_⟩
      · obtain rfl := Except.error.inj hrc
        obtain ⟨hrc, hcause⟩ := init_error hinit
        refine ⟨hrc, p, hcause.resolve_left fun hnone => ?_⟩
        have hsome := h p List.mem_cons_self
        rw [hnone] at hsome
        cases hsome
      · cases hcon
    | ok pg =>
      dsimp only
      by_cases hfull : pg.isFull = false
      · rw [if_pos hfull]
        refine ⟨fun q hq => hq, fun rc hrc => ?_, fun q pg' hcon => ?_⟩
        · cases hrc
        · obtain ⟨rfl, rfl⟩ := Prod.mk.inj (Option.some.inj (Except.ok.inj hcon))
          exact ⟨(init_ok hinit).1, hfull⟩
      · rw [if_neg hfull]
        exact ⟨fun q hq => List.mem_cons_of_mem p (hleft q hq), herror, hfound⟩

/-- A record goes into a page with a free slot. -/
theorem insertInto_spec (h : s.Ok n) {data : List UInt8} (hlen : data.length = n)
    (hp : s.page pageNum = some pg) (hfull : pg.isFull = false) :
    ∃ answer s', s.insertInto pageNum pg data = some (answer, s') ∧ s'.Ok n ∧ answer.rc = .success ∧
      ∃ rid, answer.rid = some rid ∧ s.map rid = none ∧
        s'.map = Function.update s.map rid (some data) := by
  obtain ⟨i, pg', hrun, hok, -, hnone, hlook⟩ := (h.page hp).insertRecord_spec hfull hlen
  unfold insertInto
  rw [hrun]
  refine ⟨_, _, rfl, h.setPage hp hok, rfl, ⟨pageNum, i⟩, rfl, ?_, ?_⟩
  · rw [map_eq ⟨pageNum, i⟩ hp, hnone]
  · exact map_setSlot ⟨pageNum, i⟩ hp hlook

/-- The file with a new page at the end. -/
def grow (s : RecordFileHandler) (n : Nat) : RecordFileHandler :=
  { s with pages := s.pages ++ [RecordPage.initEmptyPage n] }

/-- The new page is empty, and lies behind the others. -/
theorem page_grow (q : Int) : (s.grow n).page q
    = if q = (s.pages.length + 1 : Nat) then some (RecordPage.initEmptyPage n) else s.page q := by
  unfold RecordFileHandler.page grow
  by_cases hq : 0 < q
  · rw [if_pos hq, if_pos hq]
    rcases Nat.lt_trichotomy (q - 1).toNat s.pages.length with hlt | heq | hgt
    · rw [List.getElem?_append_left hlt, if_neg (show q ≠ (s.pages.length + 1 : Nat) by omega)]
    · rw [if_pos (show q = (s.pages.length + 1 : Nat) by omega), heq, List.getElem?_concat_length]
    · rw [if_neg (show q ≠ (s.pages.length + 1 : Nat) by omega), List.getElem?_eq_none,
        List.getElem?_eq_none (by omega)]
      rw [List.length_append, List.length_singleton]
      omega
  · rw [if_neg hq, if_neg hq, if_neg (show q ≠ (s.pages.length + 1 : Nat) by omega)]

theorem page_new : s.page (s.pages.length + 1 : Nat) = none := by
  unfold RecordFileHandler.page
  rw [if_pos (show (0 : Int) < (s.pages.length + 1 : Nat) by omega), List.getElem?_eq_none]
  omega

/-- It brings no record. -/
theorem map_grow : (s.grow n).map = s.map := by
  funext rid
  unfold map
  rw [page_grow]
  split
  · rename_i hpage
    rw [hpage, page_new]
    exact initEmptyPage_lookup n rid.slotNum
  · rfl

/-- And the file is as sound as before. -/
theorem Ok.grow (h : s.Ok n) : (s.grow n).Ok n where
  pages pg hmem := by
    rcases List.mem_append.mp hmem with hmem | hmem
    · exact h.pages pg hmem
    · rw [List.mem_singleton.mp hmem]
      exact initEmptyPage_ok n
  free q hq := by
    rw [page_grow]
    split
    · rfl
    · exact h.free q hq

/-- A record gets an identifier that is not in use, or the file is as it was. -/
theorem insertRecord_spec (env : Environment) (h : s.Ok n) {data : List UInt8} (hlen : data.length = n) :
    ∃ answer s', s.insertRecord env n data = some (answer, s') ∧ s'.Ok n ∧
      ((answer.rc = .success ∧ ∃ rid, answer.rid = some rid ∧ s.map rid = none ∧
          s'.map = Function.update s.map rid (some data)) ∨
        (answer.rc ≠ .success ∧ answer.rid = none ∧ s'.map = s.map ∧ ¬ s.Room env n)) := by
  obtain ⟨hleft, herror, hfound⟩ := findFreePage_spec env s.freePages h.free
  unfold insertRecord
  cases hfind : s.findFreePage env s.freePages with
  | mk found freePages =>
    rw [hfind] at hleft herror hfound
    have hok : Ok n { s with freePages } := ⟨h.pages, fun p hp => h.free p (hleft p hp)⟩
    cases found with
    | error rc =>
      obtain ⟨hrc, p, hp⟩ := herror rc rfl
      exact ⟨_, _, rfl, hok, Or.inr ⟨hrc, rfl, rfl, fun hroom => hp (hroom.1 p)⟩⟩
    | ok found =>
      cases found with
      | some out =>
        obtain ⟨hp, hfull⟩ := hfound out.1 out.2 rfl
        obtain ⟨answer, s', hrun, hok', hsucc, rid, hrid, hfree, hmap⟩ :=
          insertInto_spec hok hlen hp hfull
        exact ⟨answer, s', hrun, hok', Or.inl ⟨hsucc, rid, hrid, hfree, hmap⟩⟩
      | none =>
        dsimp only
        by_cases hmax : s.pages.length + 1 ≥ Buffer.maxPageNum
        · rw [if_pos hmax]
          refine ⟨_, _, rfl, hok, Or.inr ⟨by simp, rfl, rfl, fun hroom => ?_⟩⟩
          exact absurd hroom.2.2.1 (Nat.not_lt.mpr hmax)
        · rw [if_neg hmax]
          have hgrow := hok.grow
          by_cases hlog : env.initNewPage ≠ .success
          · rw [if_pos hlog]
            exact ⟨_, _, rfl, hgrow, Or.inr ⟨hlog, rfl, map_grow, fun hroom => hlog hroom.2.1⟩⟩
          · rw [if_neg hlog]
            -- the new page, in `free_pages_` too
            have hnew : (grow { s with freePages } n).page (s.pages.length + 1 : Nat)
                = some (RecordPage.initEmptyPage n) := by
              rw [page_grow, if_pos rfl]
            have hins : ((grow { s with freePages } n).insertFreePage env (s.pages.length + 1 : Nat)).Ok n :=
              hgrow.insertFreePage (by rw [hnew]; rfl)
            cases hfull : (RecordPage.initEmptyPage n).isFull with
            | false =>
              obtain ⟨answer, s', hrun, hok', hsucc, rid, hrid, hfree, hmap⟩ :=
                insertInto_spec hins hlen hnew hfull
              rw [map_insertFreePage, map_grow] at hfree hmap
              exact ⟨answer, s', hrun, hok', Or.inl ⟨hsucc, rid, hrid, hfree, hmap⟩⟩
            | true =>
              have hcap : ¬ 0 < (RecordPage.initEmptyPage n).header.recordCapacity := by
                have hge : (0 : Int) ≥ (RecordPage.initEmptyPage n).header.recordCapacity :=
                  of_decide_eq_true hfull
                omega
              have hrun : (RecordPage.initEmptyPage n).insertRecord data = _ :=
                (initEmptyPage_ok n).insertRecord_full hfull
              unfold insertInto
              rw [hrun]
              refine ⟨_, _, rfl, hins.setPage hnew (initEmptyPage_ok n), Or.inr ⟨by simp, rfl, ?_, ?_⟩⟩
              · exact (map_setSame hnew fun _ => rfl).trans map_grow
              · exact fun hroom => hcap hroom.2.2.2

/-! ## Start-up -/

/-- The pages with room are pages of the file. -/
theorem initFreePages_isSome (todo : List PageNum) : ∀ free : List PageNum,
    (∀ p ∈ free, (s.page p).isSome) → ∀ p ∈ s.initFreePages env todo free, (s.page p).isSome := by
  induction todo with
  | nil => exact fun free hfree => hfree
  | cons q rest ih =>
    intro free hfree
    rw [initFreePages]
    cases hinit : s.init env q with
    | error rc => exact hfree
    | ok pg =>
      refine ih _ fun p hp => ?_
      split at hp
      · rcases List.mem_insert_iff.mp ((env.perm _).mem_iff.mp hp) with rfl | hp
        · rw [(init_ok hinit).1]
          rfl
        · exact hfree p hp
      · exact hfree p hp

theorem Ok.reopen (h : s.Ok n) : (s.reopen env).2.Ok n where
  pages := h.pages
  free := initFreePages_isSome _ [] fun _ hp => absurd hp List.not_mem_nil

/-! ## Steps -/

theorem step_eq {o : Environment × Call n} {answer : Answer} {s' : RecordFileHandler}
    (hpage : ∀ rid, o.2.rid = some rid → rid.pageNum ≠ 0)
    (hrun : s.call o.1 o.2 = some (answer, s')) : s.step o = .ok (answer, s') := by
  unfold step
  rw [if_neg, hrun]
  cases hrid : o.2.rid with
  | none => simp
  | some rid => simpa using hpage rid hrid

/-- **Step.**  A call in range behaves as on a map and leaves a file that is laid out well. -/
theorem step_spec (h : s.Ok n) {o : Environment × Call n} (hrange : s.InRange o) :
    ∃ answer s', s.step o = .ok (answer, s') ∧ s'.Ok n ∧
      MapStep (fun rid => o.1.getThisPage rid.pageNum = .success) (s.IsSlot o.1) (s.Room o.1 n) s.map
        o.2 answer s'.map := by
  have hpage : ∀ rid, o.2.rid = some rid → rid.pageNum ≠ 0 := fun rid hrid => (hrange rid hrid).1
  have hslot : ∀ rid, o.2.rid = some rid → ∀ pg, s.init o.1 rid.pageNum = .ok pg → 0 ≤ rid.slotNum :=
    fun rid hrid pg hinit => ((hrange rid hrid).2 pg hinit).1
  obtain ⟨env, call⟩ := o
  -- one case for each call of the file
  cases call with
  | insertRecord data =>
    obtain ⟨answer, s', hrun, hok, hspec⟩ := insertRecord_spec env h data.property
    exact ⟨answer, s', step_eq hpage hrun, hok, hspec⟩
  | recoverInsertRecord data rid =>
    obtain ⟨answer, s', hrun, hok, hspec⟩ :=
      recoverInsertRecord_spec h data.property (hslot rid rfl)
    exact ⟨answer, s', step_eq hpage hrun, hok, hspec⟩
  -- a delete that succeeds empties the slot; one that fails found it empty
  | deleteRecord rid =>
    obtain ⟨answer, s', hrun, hok, hspec⟩ :=
      changeRecord_spec h rid none (fun pg => pg.deleteRecord rid.slotNum) fun pg hinit => by
        obtain ⟨h0, hread⟩ := (hrange rid rfl).2 pg hinit
        obtain ⟨rc, pg', hrun, hok, hrc, hlook⟩ :=
          (h.page (init_ok hinit).1).deleteRecord_spec h0 (hread rfl)
        refine ⟨rc, pg', hrun, hok, hrc, fun slotNum => ?_⟩
        rw [hlook]
        by_cases hs : slotNum = rid.slotNum
        · rw [if_pos hs, hs]
          split
          · rfl
          · rename_i hfail
            have hnone : ¬ (pg.lookup rid.slotNum).isSome := fun hsome => hfail ⟨hrc.mpr hsome, rfl⟩
            rw [Bool.not_eq_true, Option.isSome_eq_false_iff, Option.isNone_iff_eq_none] at hnone
            exact hnone.symm
        · rw [if_neg hs, if_neg fun hcon => hs hcon.2]
    exact ⟨answer, s', step_eq hpage hrun, hok, hspec⟩
  | updateRecord data rid =>
    obtain ⟨answer, s', hrun, hok, hspec⟩ := changeRecord_spec h rid (some data.val)
      (fun pg => pg.updateRecord rid.slotNum data.val)
      fun pg hinit => (h.page (init_ok hinit).1).updateRecord_spec (hslot rid rfl pg hinit)
        data.property
    exact ⟨answer, s', step_eq hpage hrun, hok, hspec⟩
  | getRecord rid =>
    obtain ⟨answer, hrun, hrc, hrecord⟩ := getRecord_spec h (hslot rid rfl)
    exact ⟨answer, s, step_eq hpage hrun, h, hrc, hrecord, rfl⟩
  | visitRecord rid updater =>
    obtain ⟨answer, s', hrun, hok, hspec⟩ := visitRecord_spec h updater (hslot rid rfl)
    exact ⟨answer, s', step_eq hpage hrun, hok, hspec⟩
  | reopen => exact ⟨_, _, step_eq hpage rfl, h.reopen, rfl⟩

/-- **Run.** -/
theorem ok_of_reachable (hreach : Reachable (step (n := n)) InRange .empty s) : s.Ok n := by
  refine hreach.invariant (I := Ok n) ⟨?_, ?_⟩ fun s o answer s' h hrange hstep => ?_
  · exact fun pg hmem => absurd hmem List.not_mem_nil
  · exact fun p hp => absurd hp List.not_mem_nil
  · obtain ⟨answer', s'', hstep', hok, -⟩ := step_spec h hrange
    obtain ⟨-, rfl⟩ := Prod.mk.inj (Except.ok.inj (hstep.symm.trans hstep'))
    exact hok

/-- A call on a fetched page that the page does not answer is not answered. -/
theorem call_undefined {rid : RID} (hinit : s.init env rid.pageNum = .ok pg)
    (hneg : rid.slotNum < 0) {c : Call n} (hrid : c.rid = some rid) : s.call env c = none := by
  have hcap : ¬ rid.slotNum ≥ pg.header.recordCapacity := by omega
  have hbit : pg.getBit rid.slotNum = none := if_neg fun hcon => absurd hcon.1 (Int.not_le.mpr hneg)
  cases c with
  | insertRecord data => cases hrid
  | reopen => cases hrid
  | recoverInsertRecord data rid' =>
    obtain rfl := Option.some.inj hrid
    simp only [call, recoverInsertRecord, hinit, RecordPage.recoverInsertRecord, if_neg hcap, hbit]
  | deleteRecord rid' =>
    obtain rfl := Option.some.inj hrid
    simp only [call, deleteRecord, changeRecord, hinit, RecordPage.deleteRecord, hbit]
  | updateRecord data rid' =>
    obtain rfl := Option.some.inj hrid
    simp only [call, updateRecord, changeRecord, hinit, RecordPage.updateRecord, if_neg hcap, hbit]
  | getRecord rid' =>
    obtain rfl := Option.some.inj hrid
    simp only [call, getRecord, hinit, RecordPage.getRecord, if_neg hcap, hbit]
  | visitRecord rid' updater =>
    obtain rfl := Option.some.inj hrid
    simp only [call, visitRecord, hinit, RecordPage.getRecord, if_neg hcap, hbit]

/-- A call that behaves as on a map is in range. -/
theorem inRange_of_behaves {o : Environment × Call n} (hb : s.BehavesAsMap o) : s.InRange o := by
  obtain ⟨answer, s', hstep, hspec⟩ := hb
  unfold step at hstep
  intro rid hrid
  split at hstep
  · cases hstep
  · rename_i hpage
    refine ⟨fun hzero => hpage (by simp [hrid, hzero]), fun pg hinit => ?_⟩
    have h0 : 0 ≤ rid.slotNum := by
      by_contra hneg
      rw [call_undefined hinit (Int.not_le.mp hneg) hrid] at hstep
      cases hstep
    refine ⟨h0, fun hdel => ?_⟩
    by_contra hout
    rw [not_or] at hout
    obtain ⟨env, c⟩ := o
    obtain rfl : c = .deleteRecord rid := hdel
    cases hrun : pg.deleteRecord rid.slotNum with
    | none => simp only [call, deleteRecord, changeRecord, hinit, hrun] at hstep; cases hstep
    | some out =>
      obtain ⟨hsucc, hnone⟩ := PageOk.deleteRecord_outside hout.1 hout.2 hrun
      simp only [call, deleteRecord, changeRecord, hinit, hrun] at hstep
      obtain ⟨rfl, -⟩ := Prod.mk.inj (Except.ok.inj hstep)
      have hsome := (hspec.1.mp hsucc).2
      rw [map_eq rid (init_ok hinit).1, hnone] at hsome
      cases hsome

end RecordFileHandler

open RecordFileHandler

/-- **Headline.**  After any run of calls in range the number of records of each page is the number of
    bits that are set and within the capacity, and the calls that behave as on a map are exactly those
    in range. -/
theorem record_file_is_map_iff {s : RecordFileHandler}
    (hreach : Reachable (step (n := n)) InRange .empty s) :
    s.Counted ∧ ∀ o : Environment × Call n, s.BehavesAsMap o ↔ s.InRange o := by
  have hok := ok_of_reachable hreach
  refine ⟨fun pg hmem => ⟨(hok.pages pg hmem).counted, (hok.pages pg hmem).recordNum_le⟩, fun o => ?_⟩
  constructor
  · exact inRange_of_behaves
  · intro hrange
    obtain ⟨answer, s', hstep, -, hspec⟩ := step_spec hok hrange
    exact ⟨answer, s', hstep, hspec⟩

/-- Pool and log answer everything. -/
def quiet : Environment where
  getThisPage _ := .success
  initNewPage := .success
  order := id
  perm _ := .refl _

/-- Eight bytes, all ones. -/
def ones : Data 8 := ⟨List.replicate 8 255, rfl⟩

/-- Two records are inserted, and the first one is deleted. -/
theorem record_file_is_map_iff_two : ∃ s : RecordFileHandler, s.map ⟨1, 0⟩ = none ∧ s.map ⟨1, 1⟩ = some ones.val ∧
    s.Counted ∧ ∀ o : Environment × Call 8, s.BehavesAsMap o ↔ s.InRange o := by
  have hinit : Reachable (step (n := 8)) InRange .empty .empty := .init
  have h₂ := (hinit.next (quiet, .insertRecord ones) (fun rid hrid => by cases hrid) rfl).next
    (quiet, .insertRecord ones) (fun rid hrid => by cases hrid) rfl
  have h₃ := h₂.next (quiet, .deleteRecord ⟨1, 0⟩) (fun rid hrid => by
    obtain rfl := Option.some.inj hrid
    refine ⟨by decide, fun page hpage => ?_⟩
    obtain rfl := Except.ok.inj hpage
    exact ⟨by decide, fun _ => Or.inl (by decide)⟩) rfl
  exact ⟨_, rfl, rfl, record_file_is_map_iff h₃⟩

/-- A deletion of slot 64544 of a page with 64522 slots clears a bit of the record in slot 0. -/
theorem delete_behind_last_slot :
    ¬ ∀ s : RecordFileHandler, Reachable (step (n := 8)) (fun _ _ => True) .empty s →
      ∀ o : Environment × Call 8, s.BehavesAsMap o := by
  intro h
  have h₁ : Reachable (step (n := 8)) (fun _ _ => True) .empty _ :=
    Reachable.init.next (quiet, .insertRecord ones) trivial rfl
  have hrange := inRange_of_behaves (h _ h₁ (quiet, .deleteRecord ⟨1, 64544⟩)) ⟨1, 64544⟩ rfl
  obtain ⟨-, hread⟩ := hrange.2 _ rfl
  rcases hread rfl with hlt | hclear
  · exact absurd hlt (by decide)
  · exact absurd hclear (by decide)

end Miniob.Record
