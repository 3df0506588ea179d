/-
  Replaying the log of a buffer pool (`redo_allocate_page` and `redo_deallocate_page` in
  src/observer/storage/buffer/disk_buffer_pool.cpp).

  Every action that changes the header writes an entry to the log and the entry's LSN into the header.  The
  redo of a page that is used again does not set the LSN: behind a replay the header may be older than the
  last entries.  These are pages that were allocated and not given back since (`Settled`), and to redo them
  once more changes nothing.
-/
import Miniob.Recovery.PageAllocator

namespace Miniob.Recovery

open Miniob.Common Miniob.Common.Memory Miniob.Storage Miniob.Buffer

/-! ## The log -/

/-- `BufferPoolOperation`. -/
inductive PoolLogEntry where
  | allocate (pageNum : PageNum)
  | deallocate (pageNum : PageNum)

/-- A pool and the log it has written, with LSNs. -/
structure LoggedPool where
  page : Page
  log : List (Int × PoolLogEntry)

/-- What `allocate_page` writes to the log behind its loop. -/
def allocateEntry (lsn : Int) (mem : Memory) : Option Nat → List (Int × PoolLogEntry)
  | some i => [(lsn, .allocate i)]
  | none => if pageCount mem ≥ maxPageNum then [] else [(lsn, .allocate (pageCount mem))]

/-- The entries of an action. -/
def logEntry (page : Page) (o : AllocOperation) : List (Int × PoolLogEntry) :=
  match o.action with
  | .allocatePage _ => allocateEntry o.lsn page.data (freePage page.data)
  | .disposePage pageNum => if pageNum = 0 then [] else [(o.lsn, .deallocate pageNum)]

def loggedStep (s : LoggedPool) (o : AllocOperation) : Except Fault (Allocation × LoggedPool) := do
  let (out, page) ← allocStep s.page o
  return (out, ⟨page, s.log ++ logEntry s.page o⟩)

theorem loggedStep_ok {page page' : Page} {log : List (Int × PoolLogEntry)} {o : AllocOperation}
    {out : Allocation} (h : allocStep page o = .ok (out, page')) :
    loggedStep ⟨page, log⟩ o = .ok (out, ⟨page', log ++ logEntry page o⟩) := bind_ok _ h

/-- `redo_allocate_page` or `redo_deallocate_page`; `none` if it leaves the header as it is. -/
def PoolLogEntry.redo (lsn : Int) (page : Page) : PoolLogEntry → Except Fault (Option Page)
  | .allocate pageNum => redoAllocatePage lsn pageNum page
  | .deallocate pageNum => redoDeallocatePage lsn pageNum page

/-- The log, replayed onto a header. -/
def replayPool : Page → List (Int × PoolLogEntry) → Except Fault Page
  | page, [] => .ok page
  | page, (lsn, entry) :: es => do
    let out ← entry.redo lsn page
    replayPool (out.getD page) es

theorem replayPool_append (page : Page) (es es' : List (Int × PoolLogEntry)) :
    replayPool page (es ++ es') = replayPool page es >>= fun page => replayPool page es' := by
  induction es generalizing page with
  | nil => rfl
  | cons e es ih =>
    rw [List.cons_append, replayPool, replayPool, bind_assoc]
    exact bind_congr fun out => ih _

/-! ## Redo of one entry -/

section Redo

variable {page : Page} {lsn : Int} {i : Nat}

/-- An entry that the header has seen. -/
theorem redo_seen (h : lsn ≤ page.lsn) (entry : PoolLogEntry) : entry.redo lsn page = .ok none := by
  cases entry <;> exact if_pos h

/-- The bits and the numbers do not meet. -/
theorem writeInt32_setBit (mem mem' : Memory) (x : Int) (i : Nat) :
    writeInt32 ((allocated mem').setBit mem i) 8 x = (allocated mem').setBit (writeInt32 mem 8 x) i := by
  funext a
  unfold writeInt32
  by_cases ha : a = 12 + i / 8
  · have hout : a < 8 ∨ 8 + 4 ≤ a := by omega
    have hset : ∀ m : Memory, (allocated mem').setBit m i a = m a ||| bitMask (i % 8) := fun m => if_pos ha
    rw [memcpy_of_outside hout, hset, hset, memcpy_of_outside hout]
  · have hset : ∀ m : Memory, (allocated mem').setBit m i a = m a := fun m => if_neg ha
    rw [hset]
    unfold memcpy
    rw [hset]

/-- The counter and the bitmap lie apart. -/
theorem writeInt32_clearBit (mem mem' : Memory) (x : Int) (i : Nat) :
    writeInt32 ((allocated mem').clearBit mem i) 8 x = (allocated mem').clearBit (writeInt32 mem 8 x) i := by
  funext a
  unfold writeInt32
  by_cases ha : a = 12 + i / 8
  · have hout : a < 8 ∨ 8 + 4 ≤ a := by omega
    have hclear : ∀ m : Memory, (allocated mem').clearBit m i a = m a &&& ~~~bitMask (i % 8) :=
      fun m => if_pos ha
    rw [memcpy_of_outside hout, hclear, hclear, memcpy_of_outside hout]
  · have hclear : ∀ m : Memory, (allocated mem').clearBit m i a = m a := fun m => if_neg ha
    rw [hclear]
    unfold memcpy
    rw [hclear]

/-- Bits are set and cleared without a look at the size of the bitmap. -/
theorem setBit_allocated (mem mem₁ mem₂ : Memory) (i : Nat) :
    (allocated mem₁).setBit mem i = (allocated mem₂).setBit mem i := by
  unfold Bitmap.setBit
  rfl

theorem clearBit_allocated (mem mem₁ mem₂ : Memory) (i : Nat) :
    (allocated mem₁).clearBit mem i = (allocated mem₂).clearBit mem i := by
  unfold Bitmap.clearBit
  rfl

/-- A page that is counted and free is allocated; the LSN stays. -/
theorem redo_reused (hlsn : page.lsn < lsn) (hlt : (i : Int) < pageCount page.data)
    (hfree : pageBit page.data i = false) :
    (PoolLogEntry.allocate i).redo lsn page = .ok (some ⟨page.lsn, reused page.data i⟩) := by
  have hbit : ¬ (allocated page.data).getBit page.data (i : Int).toNat = true := by
    rw [getBit_allocated, Int.toNat_natCast, hfree]
    exact Bool.false_ne_true
  have hcount : allocatedPages ((allocated page.data).setBit page.data i) = allocatedPages page.data :=
    readInt32_setBit _ _ (by decide)
  have hmem : writeInt32 ((allocated page.data).setBit page.data i) 8 (allocatedPages page.data + 1)
      = reused page.data i := by
    rw [writeInt32_setBit]
    exact setBit_allocated ..
  show redoAllocatePage lsn i page = _
  unfold redoAllocatePage
  dsimp only
  rw [if_neg (by omega), if_neg (Int.not_lt.mpr (Int.natCast_nonneg i)), if_pos hlt, if_neg hbit,
    Int.toNat_natCast, hcount, hmem]

/-- A page that is allocated already. -/
theorem redo_allocated (hlt : (i : Int) < pageCount page.data) (hset : pageBit page.data i = true) :
    (PoolLogEntry.allocate i).redo lsn page = .ok none := by
  have hbit : (allocated page.data).getBit page.data (i : Int).toNat = true := by
    rw [getBit_allocated, Int.toNat_natCast, hset]
  show redoAllocatePage lsn i page = _
  unfold redoAllocatePage
  dsimp only
  by_cases hlsn : page.lsn ≥ lsn
  · exact if_pos hlsn
  · rw [if_neg hlsn, if_neg (Int.not_lt.mpr (Int.natCast_nonneg i)), if_pos hlt, if_pos hbit]

/-- The new page is allocated again. -/
theorem redo_grown (h : HeaderOk page.data) (hlsn : page.lsn < lsn)
    (hroom : pageCount page.data < bitCapacity) :
    (PoolLogEntry.allocate (pageCount page.data)).redo lsn page = .ok (some ⟨lsn, grown page.data⟩) := by
  have hpositive := h.positive
  have hmax := bitCapacity_lt
  have hnonneg : ¬ pageCount page.data < 0 := by omega
  show redoAllocatePage lsn (pageCount page.data) page = _
  unfold redoAllocatePage grown
  dsimp only
  rw [if_neg (by omega), if_neg hnonneg, if_neg (Int.lt_irrefl _), if_neg (Int.lt_irrefl _),
    if_neg (by omega)]

/-- The page is disposed of again. -/
theorem redo_disposed (hlsn : page.lsn < lsn) (hlt : (i : Int) < pageCount page.data)
    (hset : pageBit page.data i = true) :
    (PoolLogEntry.deallocate i).redo lsn page = .ok (some ⟨lsn, disposed page.data i⟩) := by
  have hbit : ¬ (allocated page.data).getBit page.data (i : Int).toNat = false := by
    rw [getBit_allocated, Int.toNat_natCast, hset]
    exact Bool.noConfusion
  have hcount : allocatedPages ((allocated page.data).clearBit page.data i) = allocatedPages page.data :=
    readInt32_clearBit _ _ (by decide)
  have hmem : writeInt32 ((allocated page.data).clearBit page.data i) 8 (allocatedPages page.data - 1)
      = disposed page.data i := by
    rw [writeInt32_clearBit]
    exact clearBit_allocated ..
  show redoDeallocatePage lsn i page = _
  unfold redoDeallocatePage
  dsimp only
  rw [if_neg (by omega), if_neg (Int.not_le.mpr hlt), if_neg (Int.not_lt.mpr (Int.natCast_nonneg i)),
    if_neg hbit, Int.toNat_natCast, hcount, hmem]

end Redo

/-! ## Replaying -/

section Replay

variable {s s₁ : LoggedPool} {h : Page} {o : AllocOperation} {bufferPoolId : Int}

/-- A new page has a bit in the header page, and only pages that are allocated are given back. -/
def KeepsHeader (page : Page) : AllocAction → Prop
  | .allocatePage _ => freePage page.data = none → pageCount page.data < bitCapacity
  | .disposePage pageNum => pageNum = 0 ∨ IsAllocated page.data pageNum

/-- The log gives LSNs in increasing order. -/
def LoggedAdmitted (s : LoggedPool) (o : AllocOperation) : Prop :=
  KeepsHeader s.page o.action ∧ s.page.lsn < o.lsn

/-- What the header has not seen of a log are pages that are allocated. -/
def Settled (page : Page) (log : List (Int × PoolLogEntry)) : Prop :=
  ∀ e ∈ log, page.lsn < e.1 → ∃ i : Nat, e.2 = .allocate i ∧ (i : Int) < pageCount page.data ∧
    pageBit page.data i = true

/-- To replay once more changes nothing. -/
theorem Settled.replayPool {page : Page} {log : List (Int × PoolLogEntry)} (h : Settled page log) :
    replayPool page log = .ok page := by
  induction log with
  | nil => rfl
  | cons e log ih =>
    obtain ⟨lsn, entry⟩ := e
    have hredo : entry.redo lsn page = .ok none := by
      by_cases hlsn : page.lsn < lsn
      · obtain ⟨i, hentry, hlt, hset⟩ := h _ List.mem_cons_self hlsn
        dsimp only at hentry
        rw [hentry]
        exact redo_allocated hlt hset
      · exact redo_seen (Int.not_lt.mp hlsn) entry
    rw [Recovery.replayPool, bind_ok _ hredo]
    exact ih fun e he => h e (List.mem_cons_of_mem _ he)

/-- A header that was flushed, the log as it is now, and the header behind the replay. -/
structure Replayed (flushed : Page) (s : LoggedPool) (h : Page) : Prop where
  /-- What is in memory is well formed. -/
  header : HeaderOk s.page.data
  /-- The header in memory has seen the whole log. -/
  seen : ∀ e ∈ s.log, e.1 ≤ s.page.lsn
  /-- The replay of the log over the flushed header gives `h`. -/
  replay : replayPool flushed s.log = .ok h
  data : h.data = s.page.data
  /-- The LSN of the replay is not ahead of the one in memory. -/
  lsn : h.lsn ≤ s.page.lsn
  /-- A second replay finds nothing to do. -/
  settled : Settled h s.log

variable {flushed page h' : Page} {lsn : Int} {entry : PoolLogEntry}

/-- The last entry is the newest. -/
theorem Replayed.seen_concat (hr : Replayed flushed s h) (hlsn : s.page.lsn < lsn) (hpage : page.lsn = lsn) :
    ∀ e ∈ s.log ++ [(lsn, entry)], e.1 ≤ page.lsn := by
  intro e he
  rcases List.mem_append.mp he with he | he
  · have := hr.seen e he
    omega
  · obtain rfl := List.mem_singleton.mp he
    omega

/-- One entry more, whose redo does to the replayed header what the action did to the one in memory. -/
theorem Replayed.concat (hr : Replayed flushed s h) (hlsn : s.page.lsn < lsn) (hok : HeaderOk page.data)
    (hpage : page.lsn = lsn) (hredo : entry.redo lsn h = .ok (some h')) (hdata : h'.data = page.data)
    (hle : h'.lsn ≤ lsn) (hsettled : Settled h' (s.log ++ [(lsn, entry)])) :
    Replayed flushed ⟨page, s.log ++ [(lsn, entry)]⟩ h' := by
  refine ⟨hok, hr.seen_concat hlsn hpage, ?_, hdata, hpage ▸ hle, hsettled⟩
  show replayPool flushed (s.log ++ [(lsn, entry)]) = _
  rw [replayPool_append, bind_ok _ hr.replay, replayPool, bind_ok _ hredo]
  rfl

/-- A header that has seen everything. -/
theorem settled_of_seen {log : List (Int × PoolLogEntry)} (h : ∀ e ∈ log, e.1 ≤ page.lsn) :
    Settled page log := fun e he hlt => absurd (h e he) (Int.not_le.mpr hlt)

/-- **Step.** -/
theorem Replayed.step (hr : Replayed flushed s h) (hadm : LoggedAdmitted s o) {out : Allocation}
    {s' : LoggedPool} (hstep : loggedStep s o = .ok (out, s')) : ∃ h', Replayed flushed s' h' := by
  obtain ⟨page, log⟩ := s
  obtain ⟨lsn, action⟩ := o
  obtain ⟨hadm, hlsn⟩ := hadm
  have hok : HeaderOk page.data := hr.header
  have hlsn : page.lsn < lsn := hlsn
  have hdata : h.data = page.data := hr.data
  have hle : h.lsn ≤ page.lsn := hr.lsn
  have hold : h.lsn < lsn := by omega
  -- an action that ends in this page and writes these entries
  have hstep' : ∀ {out' page' es}, allocStep page ⟨lsn, action⟩ = .ok (out', page') →
      logEntry page ⟨lsn, action⟩ = es → s' = ⟨page', log ++ es⟩ := by
    intro out' page' es halloc hes
    rw [loggedStep_ok halloc, hes] at hstep
    exact (Prod.mk.inj (Except.ok.inj hstep)).2.symm
  cases action with
  | allocatePage fetch =>
    cases hfree : freePage page.data with
    | some i =>
      obtain ⟨hlt, hclear, -⟩ := freePage_eq_some hfree
      obtain ⟨halloc, hok', -⟩ := reuse_spec lsn fetch hok hfree
      have hes : logEntry page ⟨lsn, .allocatePage fetch⟩ = [(lsn, .allocate i)] := by
        show allocateEntry lsn page.data (freePage page.data) = _
        rw [hfree]
        rfl
      rw [hstep' halloc hes]
      have hredo : (PoolLogEntry.allocate i).redo lsn h = .ok (some ⟨h.lsn, reused h.data i⟩) :=
        redo_reused hold (hdata ▸ hlt) (hdata ▸ hclear)
      refine ⟨_, hr.concat hlsn hok' rfl hredo (congrArg (reused · i) hdata) (Int.le_of_lt hold) ?_⟩
      intro e he hnew
      rcases List.mem_append.mp he with he | he
      · obtain ⟨j, hentry, hltj, hset⟩ := hr.settled e he hnew
        refine ⟨j, hentry, ?_, ?_⟩
        · show _ < pageCount (reused h.data i)
          rw [pageCount_reused]
          exact hltj
        · show pageBit (reused h.data i) j = true
          rw [pageBit_reused, hset, Bool.or_true]
      · obtain rfl := List.mem_singleton.mp he
        refine ⟨i, rfl, ?_, ?_⟩
        · show _ < pageCount (reused h.data i)
          rw [pageCount_reused, hdata]
          exact hlt
        · show pageBit (reused h.data i) i = true
          rw [pageBit_reused]
          simp
    | none =>
      have hroom : pageCount page.data < bitCapacity := hadm hfree
      have hmax := bitCapacity_lt
      obtain ⟨halloc, hok', -⟩ := grow_spec lsn fetch hok hfree hroom
      have hes : logEntry page ⟨lsn, .allocatePage fetch⟩ = [(lsn, .allocate (pageCount page.data))] := by
        show allocateEntry lsn page.data (freePage page.data) = _
        rw [hfree]
        exact if_neg (by omega)
      rw [hstep' halloc hes]
      have hredo : (PoolLogEntry.allocate (pageCount h.data)).redo lsn h = .ok (some ⟨lsn, grown h.data⟩) :=
        redo_grown (hdata ▸ hok) hold (hdata ▸ hroom)
      rw [hdata] at hredo
      exact ⟨_, hr.concat hlsn hok' rfl hredo rfl (Int.le_refl lsn)
        (settled_of_seen (hr.seen_concat hlsn rfl))⟩
  | disposePage pageNum =>
    by_cases hzero : pageNum = 0
    · have halloc : allocStep page ⟨lsn, .disposePage pageNum⟩ = .ok ((.internal, none), page) := if_pos hzero
      have hes : logEntry page ⟨lsn, .disposePage pageNum⟩ = [] := if_pos hzero
      rw [hstep' halloc hes, List.append_nil]
      exact ⟨h, hr⟩
    · have hset : IsAllocated page.data pageNum := Or.resolve_left hadm hzero
      obtain ⟨halloc, hok'⟩ := dispose_spec lsn hok hset hzero
      have hes : logEntry page ⟨lsn, .disposePage pageNum⟩ = [(lsn, .deallocate pageNum)] := if_neg hzero
      rw [hstep' halloc hes]
      obtain ⟨hnonneg, hlt, hbit⟩ := hset
      have hredo : (PoolLogEntry.deallocate pageNum.toNat).redo lsn h
          = .ok (some ⟨lsn, disposed h.data pageNum.toNat⟩) :=
        redo_disposed hold (by rw [Int.toNat_of_nonneg hnonneg, hdata]; exact hlt) (hdata ▸ hbit)
      rw [Int.toNat_of_nonneg hnonneg, hdata] at hredo
      exact ⟨_, hr.concat hlsn hok' rfl hredo rfl (Int.le_refl lsn)
        (settled_of_seen (hr.seen_concat hlsn rfl))⟩

theorem Replayed.of_flushed (hok : HeaderOk s.page.data) (hseen : ∀ e ∈ s.log, e.1 ≤ s.page.lsn) :
    Replayed s.page s s.page :=
  ⟨hok, hseen, (settled_of_seen hseen).replayPool, rfl, Int.le_refl _, settled_of_seen hseen⟩

/-- A new file and its log. -/
def newPool (bufferPoolId : Int) : LoggedPool := ⟨newHeader bufferPoolId, []⟩

/-- **Redo of the allocator.**  Wherever the header page was flushed, the replay of the whole log succeeds and
    leads to the header in memory, and to replay it again changes nothing. -/
theorem allocator_redo (h₁ : Reachable loggedStep LoggedAdmitted (newPool bufferPoolId) s₁)
    (h₂ : Reachable loggedStep LoggedAdmitted s₁ s) :
    ∃ h, replayPool s₁.page s.log = .ok h ∧ h.data = s.page.data ∧ replayPool h s.log = .ok h := by
  have hstart : ∃ h, Replayed (newHeader bufferPoolId) s₁ h := by
    refine h₁.invariant (I := fun s => ∃ h, Replayed (newHeader bufferPoolId) s h) ?_ ?_
    · exact ⟨_, Replayed.of_flushed (s := newPool bufferPoolId) (newHeader_ok bufferPoolId)
        fun e he => absurd he List.not_mem_nil⟩
    · rintro s o out s' ⟨h, hr⟩ hadm hstep
      exact hr.step hadm hstep
  obtain ⟨h₀, hr₀⟩ := hstart
  have hend : ∃ h, Replayed s₁.page s h := by
    refine h₂.invariant (I := fun s => ∃ h, Replayed s₁.page s h) ?_ ?_
    · exact ⟨_, .of_flushed hr₀.header hr₀.seen⟩
    · rintro s o out s' ⟨h, hr⟩ hadm hstep
      exact hr.step hadm hstep
  obtain ⟨h, hr⟩ := hend
  exact ⟨h, hr.replay, hr.data, hr.settled.replayPool⟩

end Replay

/-! ## A file with two pages -/

/-- A page is allocated behind all others. -/
theorem loggedStep_grow {s : LoggedPool} {lsn : Int} (hok : HeaderOk s.page.data)
    (hfull : allocatedPages s.page.data = pageCount s.page.data) (hroom : pageCount s.page.data < bitCapacity) :
    ∃ out, loggedStep s ⟨lsn, .allocatePage .success⟩ =
      .ok (out, ⟨⟨lsn, grown s.page.data⟩, s.log ++ [(lsn, .allocate (pageCount s.page.data))]⟩) := by
  have hfree := freePage_of_full hfull
  have hmax := bitCapacity_lt
  have hes : logEntry s.page ⟨lsn, .allocatePage .success⟩ = [(lsn, .allocate (pageCount s.page.data))] := by
    show allocateEntry lsn s.page.data (freePage s.page.data) = _
    rw [hfree]
    exact if_neg (by omega)
  have hstep : loggedStep s ⟨lsn, .allocatePage .success⟩ = _ :=
    loggedStep_ok (grow_spec lsn .success hok hfree hroom).1
  rw [hes] at hstep
  exact ⟨_, hstep⟩

/-- Two pages are allocated and the first one is given back.  The header was flushed when there was one page. -/
theorem allocator_redo_two : ∃ s₁ s, Reachable loggedStep LoggedAdmitted (newPool 1) s₁ ∧
    Reachable loggedStep LoggedAdmitted s₁ s ∧
    s.log = [(1, .allocate 1), (2, .allocate 2), (3, .deallocate 1)] ∧
    ∃ h, replayPool s₁.page s.log = .ok h ∧ h.data = s.page.data ∧ replayPool h s.log = .ok h := by
  have hok := newHeader_ok 1
  have hcount := pageCount_newHeader 1
  have hfull : allocatedPages (newHeader 1).data = pageCount (newHeader 1).data := by
    rw [hcount, allocatedPages_newHeader]
  have hroom : pageCount (newHeader 1).data < bitCapacity := by
    rw [hcount]
    decide
  -- page 1
  obtain ⟨_, hgrow₁⟩ := @loggedStep_grow (newPool 1) 1 hok hfull hroom
  have h₁ : Reachable loggedStep LoggedAdmitted (newPool 1) _ :=
    .next .init ⟨1, .allocatePage .success⟩ ⟨fun _ => hroom, Int.one_pos⟩ hgrow₁
  obtain ⟨-, hok₁, hanswer⟩ := grow_spec 1 .success hok (freePage_of_full hfull) hroom
  have hset : IsAllocated (grown (newHeader 1).data) 1 := by
    obtain ⟨pageNum, heq, -, -, hset⟩ := hanswer.1 rfl
    rw [hcount] at heq
    obtain rfl := Option.some.inj heq
    exact hset
  have hcount₁ : pageCount (grown (newHeader 1).data) = 2 := by
    rw [pageCount_grown hok, hcount]
    rfl
  have hfull₁ : allocatedPages (grown (newHeader 1).data) = pageCount (grown (newHeader 1).data) := by
    rw [pageCount_grown hok, allocatedPages_grown hok, hfull]
  have hroom₁ : pageCount (grown (newHeader 1).data) < bitCapacity := by
    rw [hcount₁]
    decide
  -- page 2, and page 1 again
  let s₁ : LoggedPool := ⟨⟨1, grown (newHeader 1).data⟩, [] ++ [(1, .allocate (pageCount (newHeader 1).data))]⟩
  obtain ⟨_, hgrow₂⟩ := @loggedStep_grow s₁ 2 hok₁ hfull₁ hroom₁
  have hset₂ : IsAllocated (grown (grown (newHeader 1).data)) 1 := by
    obtain ⟨hnonneg, hlt, hbit⟩ := hset
    refine ⟨hnonneg, ?_, ?_⟩
    · rw [pageCount_grown hok₁, hcount₁]
      decide
    · rw [pageBit_grown, hbit, Bool.or_true]
  have hok₂ : HeaderOk (grown (grown (newHeader 1).data)) :=
    (@grow_spec ⟨1, grown (newHeader 1).data⟩ 2 .success hok₁ (freePage_of_full hfull₁) hroom₁).2.1
  have hdispose := (@dispose_spec ⟨2, grown (grown (newHeader 1).data)⟩ 1 3 hok₂ hset₂ Int.one_ne_zero).1
  have h₂ : Reachable loggedStep LoggedAdmitted s₁ _ :=
    .next .init ⟨2, .allocatePage .success⟩ ⟨fun _ => hroom₁, (by decide : (1 : Int) < 2)⟩ hgrow₂
  have h₃ : Reachable loggedStep LoggedAdmitted s₁ _ :=
    .next h₂ ⟨3, .disposePage 1⟩ ⟨Or.inr hset₂, (by decide : (2 : Int) < 3)⟩ (loggedStep_ok hdispose)
  refine ⟨s₁, _, h₁, h₃, ?_, allocator_redo h₁ h₃⟩
  rw [hcount₁]
  show ([] ++ [(1, PoolLogEntry.allocate (pageCount (newHeader 1).data))]) ++ _ ++ _ = _
  rw [hcount]
  rfl

/-- A page that was never allocated is given back: its entry cannot be redone. -/
theorem dispose_not_redone : ∃ s, Reachable loggedStep (fun _ _ => True) (newPool 1) s ∧
    replayPool (newHeader 1) s.log = .error (.rc .internal) := by
  have hdispose : disposePage 1 1 (newHeader 1)
      = .ok ((.success, none), ⟨1, disposed (newHeader 1).data 1⟩) := by
    have hin : bitInPage 1 := (bitInPage_iff 1).mpr (by decide)
    unfold disposePage
    rw [if_neg Int.one_ne_zero, if_neg (not_not.mpr hin)]
    rfl
  refine ⟨_, Reachable.next .init ⟨1, .disposePage 1⟩ trivial (loggedStep_ok hdispose), ?_⟩
  have hcount := pageCount_newHeader 1
  have hredo : (PoolLogEntry.deallocate 1).redo 1 (newHeader 1) = .error (.rc .internal) := by
    show redoDeallocatePage 1 1 (newHeader 1) = _
    unfold redoDeallocatePage
    dsimp only
    rw [if_neg (by decide), if_pos (Int.le_of_eq hcount)]
  show replayPool (newHeader 1) [(1, .deallocate 1)] = _
  rw [replayPool, hredo]
  rfl

end Miniob.Recovery
