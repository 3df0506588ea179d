/-
  The files that are open while the log is replayed (`Db::init` in src/observer/storage/db/db.cpp).

  `open_all_tables` opens the record files and the indexes, and then the log is replayed.  An open index
  holds a copy of the header in its first page (`BplusTreeHandler::open`), an open record file the set of
  its pages that are not full (`RecordFileHandler::init_free_pages`).  The replayers read and write pages
  and know nothing of the open files: the index log is redone by tree handlers of its own.

  So an open file is up to date after the recovery if the replay leaves alone what was read when it was
  opened.  `QuietIndex` and `QuietRecords` say which steps of a replay do.

  What is on disk is what a page is read from, pages of the double write buffer included.  Left out: the
  rollback of transactions behind the replay, which goes through the open files.
-/
import Miniob.Recovery.Replay

namespace Miniob.Recovery

open Miniob.Common Miniob.Common.Memory Miniob.Storage Miniob.Record Miniob.Index.Log Replayer

/-! ## Opening files -/

section Open

variable (seen : PageId → Option Page) (poolId : Int)

/-- The header `BplusTreeHandler::open` copies. -/
def readFileHeader : Option IndexFileHeader :=
  (seen ⟨poolId, firstIndexPage⟩).map fun page => indexFileHeader page.data

/-- The pages behind the header page that are allocated. -/
def dataPages (header : Memory) : List PageNum :=
  ((List.range (pageCount header).toNat).filter fun p =>
    decide (1 ≤ p) && (allocated header).getBit header p).map Int.ofNat

/-- The loop of `init_free_pages`; it ends at a page that cannot be fetched. -/
def freePagesAmong : List PageNum → List PageNum
  | [] => []
  | p :: rest =>
    match seen ⟨poolId, p⟩ with
    | none => []
    | some page =>
      if (recordPage page.data).isFull then freePagesAmong rest else p :: freePagesAmong rest

/-- `init_free_pages`. -/
def initFreePages : List PageNum :=
  match seen (headerPage poolId) with
  | none => []
  | some page => freePagesAmong seen poolId (dataPages page.data)

end Open

structure Db where
  replayer : Replayer
  /-- `file_header_` of the open indexes, with the pools of their files. -/
  indexes : List (Int × IndexFileHeader)
  /-- `free_pages_` of the open record files. -/
  recordFiles : List (Int × List PageNum)

namespace Db

def openIndex (seen : PageId → Option Page) (poolId : Int) : Except Fault (Int × IndexFileHeader) :=
  match readFileHeader seen poolId with
  | none => .error (.rc .ioerrRead)
  | some header => if header.keyLength ≤ 0 then .error (.rc .nomem) else .ok (poolId, header)

/-- `open_all_tables`, for the files of these pools. -/
def openAllTables (replayer : Replayer) (indexPools recordPools : List Int) : Except Fault Db := do
  let seen := replayer.table.seen
  let indexes ← indexPools.mapM (openIndex seen)
  return ⟨replayer, indexes, recordPools.map fun poolId => (poolId, initFreePages seen poolId)⟩

/-- The pools of the open files. -/
def pools (db : Db) : List Int := db.indexes.map Prod.fst ++ db.recordFiles.map Prod.fst

/-- A part of the replay. -/
def recover (db : Db) (as : List ReplayAction) : Except Fault Db := do
  let replayer ← db.replayer.run db.pools as
  return { db with replayer }

/-- What the open files hold is what their pages say. -/
structure Fresh (db : Db) : Prop where
  indexes : ∀ poolId header, (poolId, header) ∈ db.indexes →
    readFileHeader db.replayer.table.seen poolId = some header
  recordFiles : ∀ poolId freePages, (poolId, freePages) ∈ db.recordFiles →
    initFreePages db.replayer.table.seen poolId = freePages

end Db

/-! ## Steps that leave open files alone -/

/-- The page that is seen is older than the log record, so that it is redone. -/
def Older (table : FrameTable PageId Page) (page : PageId) (lsn : Int) (frame : Page) : Prop :=
  table.seen page = some frame ∧ frame.lsn < lsn

/-- The entry leaves the first page of its index as it is. -/
def QuietEntry (table : FrameTable PageId Page) (poolId : Int) (entry : LogEntryHandler) : Prop :=
  match entry.body with
  | .updateRootPage rootPageNum _ => ∀ first, table.seen ⟨poolId, firstIndexPage⟩ = some first →
    readInt32 first.data 0 = rootPageNum.toInt
  | .initHeaderPage fileHeader => entry.pageNum.toInt = firstIndexPage →
    ∀ first, table.seen ⟨poolId, firstIndexPage⟩ = some first → indexFileHeader first.data = fileHeader
  | _ => entry.pageNum.toInt ≠ firstIndexPage

/-- What comes next leaves the header of an index as it is. -/
def QuietIndex (poolId : Int) (s : Replayer) : Prop :=
  match s.redoing, s.log with
  | some redo, _ => redo.poolId = poolId → ∀ entry entries, redo.entries = entry :: entries →
    ∀ frame, Older s.table ⟨poolId, entry.pageNum.toInt⟩ redo.lsn frame → QuietEntry s.table poolId entry
  | none, (lsn, .record page _) :: _ =>
    ∀ frame, Older s.table page lsn frame → page ≠ ⟨poolId, firstIndexPage⟩
  | none, _ => True

/-- The operation makes a full page of no other one and the other way round. -/
def QuietOperation (page : RecordPage) : RecordOperation → Prop
  | .initPage recordSize columnNum _ => page.isFull = decide ((initHeader recordSize columnNum).recordCapacity = 0)
  | .insert _ => page.header.recordNum + 1 < page.header.recordCapacity
  | .delete _ => 0 < page.header.recordNum ∧ page.header.recordNum < page.header.recordCapacity
  | .update _ _ => True

/-- What comes next allocates no page of a record file, gives none back, and leaves full pages full and
    the others not full. -/
def QuietRecords (poolId : Int) (s : Replayer) : Prop :=
  match s.redoing, s.log with
  | some redo, _ => redo.poolId = poolId → ∀ entry entries, redo.entries = entry :: entries →
    ∀ frame, ¬ Older s.table ⟨poolId, entry.pageNum.toInt⟩ redo.lsn frame
  | none, (lsn, .allocatePage pool pageNum) :: _ => pool = poolId →
    ∀ frame, Older s.table (headerPage poolId) lsn frame →
      pageNum < pageCount frame.data ∧ (allocated frame.data).getBit frame.data pageNum.toNat = true
  | none, (lsn, .deallocatePage pool _) :: _ => pool = poolId →
    ∀ frame, ¬ Older s.table (headerPage poolId) lsn frame
  | none, (lsn, .record page operation) :: _ => page.poolId = poolId →
    ∀ frame, Older s.table page lsn frame →
      page ≠ headerPage poolId ∧ QuietOperation (recordPage frame.data) operation
  | none, _ => True

/-- Every step of a run leaves the open files alone. -/
def QuietRun (db : Db) : Replayer → List ReplayAction → Prop
  | _, [] => True
  | s, a :: as =>
    (a = .next → (∀ index ∈ db.indexes, QuietIndex index.1 s) ∧
      ∀ file ∈ db.recordFiles, QuietRecords file.1 s) ∧
    ∀ s', s.step db.pools a = .ok s' → QuietRun db s' as

/-! ## What a replay leaves as it is -/

section Keeps

variable {X : Type} {g : PageId → Page → X} {x : PageId → Option X} {pools : List Int} {s : Replayer}
  {table : FrameTable PageId Page}

def IgnoresLsn (g : PageId → Page → X) : Prop := ∀ k (lsn : Int) (page : Page), g k { page with lsn } = g k page

/-- What comes next writes only what `g` does not read. -/
def WritesKeep (g : PageId → Page → X) (s : Replayer) : Prop :=
  match s.redoing, s.log with
  | some redo, _ => ∀ entry entries, redo.entries = entry :: entries →
    ∀ frame, Older s.table ⟨redo.poolId, entry.pageNum.toInt⟩ redo.lsn frame →
    match entry.body with
    | .updateRootPage rootPageNum _ => ∀ first, s.table.seen ⟨redo.poolId, firstIndexPage⟩ = some first →
      g ⟨redo.poolId, firstIndexPage⟩ { first with data := writeInt32 first.data 0 rootPageNum.toInt }
        = g ⟨redo.poolId, firstIndexPage⟩ first
    | body => ∀ data, redoNode redo.header frame.data body = .ok data →
      g ⟨redo.poolId, entry.pageNum.toInt⟩ { frame with data }
        = g ⟨redo.poolId, entry.pageNum.toInt⟩ frame
  | none, (lsn, .allocatePage poolId pageNum) :: _ => ∀ frame page,
    s.table.seen (headerPage poolId) = some frame → redoAllocatePage lsn pageNum frame = .ok (some page) →
    g (headerPage poolId) page = g (headerPage poolId) frame
  | none, (lsn, .deallocatePage poolId pageNum) :: _ => ∀ frame page,
    s.table.seen (headerPage poolId) = some frame → redoDeallocatePage lsn pageNum frame = .ok (some page) →
    g (headerPage poolId) page = g (headerPage poolId) frame
  | none, (lsn, .record page operation) :: _ => ∀ frame, Older s.table page lsn frame →
    ∀ data, operation.redo frame.data = .ok data → g page { frame with data } = g page frame
  | none, _ => True

theorem keeps_seen (h : table.Keeps g x) {k : PageId} {frame : Page} (hseen : table.seen k = some frame) :
    x k = some (g k frame) := by
  rw [← h.seen k, hseen]
  rfl

theorem keeps_release (h : table.Keeps g x) (poolId : Int) (memo : List PageNum) :
    (release poolId memo table).Keeps g x := by
  induction memo generalizing table with
  | nil => exact h
  | cons p memo ih => exact ih (h.unpin ⟨poolId, p⟩)

/-- Checking the LSNs of the frames leaves what does not look at them. -/
theorem keeps_setLsns (hlsn : IgnoresLsn g) (h : table.Keeps g x) (lsn poolId : Int)
    (frames : List PageNum) : (setLsns lsn poolId frames table).Keeps g x := by
  induction frames generalizing table with
  | nil => exact h
  | cons p frames ih =>
    unfold setLsns
    dsimp only
    cases hf : table.frames ⟨poolId, p⟩ with
    | none => exact ih h
    | some f =>
      refine ih ((h.write ?_ false).unpin _)
      rw [hlsn]
      exact h.frame _ f hf

/-- A replayed header is all that changes, so it is enough that this one is kept. -/
theorem replayHeader_keeps (h : s.table.Keeps g x) (poolId : Int) {redo : Page → Except Fault (Option Page)}
    (hw : ∀ frame page, s.table.seen (headerPage poolId) = some frame → redo frame = .ok (some page) →
      g (headerPage poolId) page = g (headerPage poolId) frame) :
    Returns (s.replayHeader pools poolId redo) fun s' => s'.table.Keeps g x := by
  unfold Replayer.replayHeader
  split
  · exact Returns.error
  · cases hf : s.table.frames (headerPage poolId) with
    | none => exact Returns.error
    | some f =>
      have hseen := FrameTable.seen_of_frame hf
      have hw := hw f.page
      dsimp only
      cases hredo : redo f.page with
      | error e => exact Returns.error
      | ok out =>
        cases out with
        | none => exact Returns.ok h
        | some page =>
          refine Returns.ok (h.write ?_ true)
          rw [hw page hseen hredo]
          exact keeps_seen h hseen

/-- Reading a page into a frame changes nothing that is seen. -/
theorem getThisPage_keeps (h : table.Keeps g x) (page : PageId) :
    Returns (getThisPage table page) fun out => table.seen page = some out.1 ∧ out.2.Keeps g x := by
  unfold getThisPage
  rcases table.get_eq page with ⟨hget, -⟩ | ⟨frame, t, hget, hseen, -⟩
  · rw [hget]
    exact Returns.error
  · rw [hget]
    exact Returns.ok ⟨hseen, h.get hget⟩

/-- One entry of the B+ tree log writes one page, and for a new root the header. -/
theorem redoEntry_keeps {redo : TreeRedo} {entry : LogEntryHandler} {frame : Page}
    (h : table.Keeps g x) (hseen : table.seen ⟨redo.poolId, entry.pageNum.toInt⟩ = some frame)
    (hw : match entry.body with
      | .updateRootPage rootPageNum _ => ∀ first, table.seen ⟨redo.poolId, firstIndexPage⟩ = some first →
        g ⟨redo.poolId, firstIndexPage⟩ { first with data := writeInt32 first.data 0 rootPageNum.toInt }
          = g ⟨redo.poolId, firstIndexPage⟩ first
      | body => ∀ data, redoNode redo.header frame.data body = .ok data →
        g ⟨redo.poolId, entry.pageNum.toInt⟩ { frame with data }
          = g ⟨redo.poolId, entry.pageNum.toInt⟩ frame) :
    Returns (redoEntry table redo ⟨redo.poolId, entry.pageNum.toInt⟩ frame entry.body) fun out =>
      out.1.Keeps g x := by
  have hnode : ∀ (y : Except Fault Miniob.Common.Memory) mark redo',
      (∀ data, y = .ok data → g ⟨redo.poolId, entry.pageNum.toInt⟩ { frame with data }
        = g ⟨redo.poolId, entry.pageNum.toInt⟩ frame) →
      Returns (do
        let data ← y
        return (table.write ⟨redo.poolId, entry.pageNum.toInt⟩ { frame with data } mark,
          (redo' : TreeRedo))) fun out => out.1.Keeps g x := by
    intro y mark redo' hy
    cases y with
    | error e => exact Returns.error
    | ok data =>
      refine Returns.ok (h.write ?_ mark)
      rw [hy data rfl]
      exact keeps_seen h hseen
  obtain ⟨pageNum, body⟩ := entry
  cases body with
  | initHeaderPage fileHeader => exact hnode _ true _ hw
  | updateRootPage rootPageNum oldPageNum =>
    unfold redoEntry
    dsimp only
    rcases table.get_eq ⟨redo.poolId, firstIndexPage⟩ with ⟨hget, -⟩ | ⟨first, t, hget, hfirst, -⟩
    · rw [hget]
      exact Returns.error
    · rw [hget]
      refine Returns.ok ((h.get hget).write ?_ true)
      rw [hw first hfirst]
      exact keeps_seen h hfirst
  | _ => exact hnode _ false _ hw

/-- So does a step of a redo that is under way. -/
theorem redoNext_keeps (hlsn : IgnoresLsn g) (h : s.table.Keeps g x) {redo : TreeRedo}
    (hredo : s.redoing = some redo) (hw : WritesKeep g s) :
    Returns (s.redoNext redo) fun s' => s'.table.Keeps g x := by
  unfold WritesKeep at hw
  rw [hredo] at hw
  dsimp only at hw
  unfold Replayer.redoNext
  cases hentries : redo.entries with
  | nil => exact Returns.ok (keeps_release (keeps_setLsns hlsn h _ _ _) _ _)
  | cons entry entries =>
    dsimp only
    rcases s.table.get_eq ⟨redo.poolId, entry.pageNum.toInt⟩ with
      ⟨hget, -⟩ | ⟨frame, t, hget, hseen, hsame, -⟩
    · rw [hget]
      exact Returns.ok (keeps_release h _ _)
    · rw [hget]
      dsimp only
      split
      · exact Returns.ok ((h.get hget).unpin _)
      · rename_i hold
        have hw' := hw entry entries hentries frame ⟨hseen, Int.not_le.mp hold⟩
        refine Returns.bind (redoEntry_keeps (h.get hget) ?_ ?_) fun out hout => Returns.ok hout
        · rw [hsame]
          exact hseen
        · rw [hsame]
          exact hw'

/-- **Step.**  What no write changes is kept. -/
theorem next_keeps (hlsn : IgnoresLsn g) (h : s.table.Keeps g x) (hw : WritesKeep g s) :
    Returns (s.next pools) fun s' => s'.table.Keeps g x := by
  obtain ⟨table, redoing, log⟩ := s
  unfold Replayer.next
  cases redoing with
  -- a tree transaction is being replayed: one more of its entries
  | some redo => exact redoNext_keeps hlsn h rfl hw
  | none =>
    cases log with
    | nil => exact Returns.ok h
    | cons entry log =>
      obtain ⟨lsn, record⟩ := entry
      have hs : Replayer.table ⟨table, none, log⟩ |>.Keeps g x := h
      -- a new log entry: only a record is written at once, a tree log just opens its transaction
      cases record with
      | allocatePage poolId pageNum => exact replayHeader_keeps hs poolId hw
      | deallocatePage poolId pageNum => exact replayHeader_keeps hs poolId hw
      | record page operation =>
        dsimp only [Replayer.replay]
        unfold Replayer.replayRecord
        split
        · exact Returns.error
        · refine (getThisPage_keeps hs page).bind fun out hout => ?_
          obtain ⟨frame, t⟩ := out
          obtain ⟨hseen, ht⟩ := hout
          dsimp only
          split
          · exact Returns.ok (ht.unpin page)
          · rename_i hold
            have hw' := hw frame ⟨hseen, Int.not_le.mp hold⟩
            cases hdata : operation.redo frame.data with
            | error e => exact Returns.error
            | ok data =>
              refine Returns.ok ((ht.write ?_ _).unpin page)
              -- the frame is written, and what is remembered of the file stays as it was
              rw [hlsn page lsn ⟨frame.lsn, data⟩, hw' data hdata]
              exact keeps_seen h hseen
      | bplusTree poolId entries =>
        dsimp only [Replayer.replay]
        unfold Replayer.openTree
        split
        · exact Returns.error
        · refine (getThisPage_keeps hs _).bind fun out hout => ?_
          obtain ⟨frame, t⟩ := out
          obtain ⟨-, ht⟩ := hout
          dsimp only
          split
          · exact Returns.error
          -- the file header is read, and no page is written
          · exact Returns.ok (ht.unpin _)
      | transaction => exact Returns.ok hs

end Keeps

/-! ## What the open files have read -/

section Aspects

variable {s : Replayer} {poolId : Int}

/-- The header of an index, in its first page. -/
def headerOf (poolId : Int) (k : PageId) (page : Page) : List UInt8 :=
  if k = ⟨poolId, firstIndexPage⟩ then load page.data 0 IndexFileHeader.headerSize else []

/-- The pages of a record file, in its header page, and of the others whether they are full. -/
def fullnessOf (poolId : Int) (k : PageId) (page : Page) : List PageNum × Bool :=
  if k = headerPage poolId then (dataPages page.data, false)
  else if k.poolId = poolId then ([], (recordPage page.data).isFull)
  else ([], false)

theorem headerOf_ignoresLsn : IgnoresLsn (headerOf poolId) := fun _ _ _ => rfl

theorem fullnessOf_ignoresLsn : IgnoresLsn (fullnessOf poolId) := fun _ _ _ => rfl

theorem headerOf_ne {k : PageId} (h : k ≠ ⟨poolId, firstIndexPage⟩) (page : Page) :
    headerOf poolId k page = [] := if_neg h

theorem fullnessOf_ne {k : PageId} (h : k.poolId ≠ poolId) (page : Page) :
    fullnessOf poolId k page = ([], false) := by
  unfold fullnessOf
  rw [if_neg (fun heq => h (congrArg PageId.poolId heq)), if_neg h]

theorem fullnessOf_record {k : PageId} (h : k ≠ headerPage poolId) {data : Memory} {page : Page}
    (hfull : (recordPage data).isFull = (recordPage page.data).isFull) :
    fullnessOf poolId k { page with data } = fullnessOf poolId k page := by
  unfold fullnessOf
  rw [if_neg h, if_neg h, hfull]

/-! ### Indexes -/

/-- The number that is there already. -/
theorem writeInt32_readInt32 (mem : Memory) (offset : Nat) :
    writeInt32 mem offset (readInt32 mem offset) = mem := by
  have hbytes := bytesOfInt_intOfBytes (load mem offset 4)
  rw [length_load] at hbytes
  unfold writeInt32 readInt32
  rw [hbytes]
  exact memcpy_load_self mem offset 4

/-- The header that is there already. -/
theorem memcpy_indexFileHeader (mem : Memory) :
    memcpy mem 0 (indexFileHeader mem).toBytes IndexFileHeader.headerSize = mem := by
  unfold indexFileHeader
  rw [IndexFileHeader.toBytes_ofBytes (length_load _ _ _)]
  exact memcpy_load_self mem 0 _

/-- The header of the index is read from what is kept. -/
theorem QuietIndex.writesKeep (h : QuietIndex poolId s) : WritesKeep (headerOf poolId) s := by
  obtain ⟨table, redoing, log⟩ := s
  cases redoing with
  -- the entry of a tree: only its first page holds the header of the index
  | some redo =>
    intro entry entries hentries frame hold
    by_cases hpool : redo.poolId = poolId
    · have hquiet := h hpool entry entries hentries
      subst hpool
      have hquiet := hquiet frame hold
      have hother : entry.pageNum.toInt ≠ firstIndexPage → ∀ page,
          headerOf redo.poolId ⟨redo.poolId, entry.pageNum.toInt⟩ page = [] := fun hne page =>
        headerOf_ne (fun heq => hne (congrArg PageId.pageNum heq)) page
      obtain ⟨pageNum, body⟩ := entry
      cases body with
      | initHeaderPage fileHeader =>
        intro data hdata
        by_cases hfirst : pageNum.toInt = firstIndexPage
        · obtain ⟨hseen, -⟩ := hold
          dsimp only at hseen ⊢
          rw [hfirst] at hseen ⊢
          have hheader : indexFileHeader frame.data = fileHeader := hquiet hfirst frame hseen
          obtain rfl : memcpy frame.data 0 fileHeader.toBytes _ = data := Except.ok.inj hdata
          rw [← hheader, memcpy_indexFileHeader]
        · rw [hother hfirst, hother hfirst]
      | updateRootPage rootPageNum oldPageNum =>
        intro first hfirst
        have hroot : readInt32 first.data 0 = rootPageNum.toInt := hquiet first hfirst
        rw [← hroot, writeInt32_readInt32]
      | _ =>
        intro data hdata
        have hne : pageNum.toInt ≠ firstIndexPage := hquiet
        -- no other entry is written to the first page
        rw [hother hne, hother hne]
    · have hother : ∀ p page, headerOf poolId ⟨redo.poolId, p⟩ page = [] := fun p page =>
        headerOf_ne (fun heq => hpool (congrArg PageId.poolId heq)) page
      obtain ⟨pageNum, body⟩ := entry
      cases body with
      | updateRootPage rootPageNum oldPageNum =>
        intro first hfirst
        rw [hother, hother]
      | _ =>
        intro data hdata
        rw [hother, hother]
  | none =>
    have hheader : ∀ pool page, headerOf poolId (headerPage pool) page = [] := fun pool page =>
      -- the header page of the pool is not the one of the index
      headerOf_ne (fun heq => Int.zero_ne_one (congrArg PageId.pageNum heq)) page
    cases log with
    | nil => trivial
    | cons entry log =>
      obtain ⟨lsn, record⟩ := entry
      cases record with
      | allocatePage pool pageNum =>
        intro frame page _ _
        rw [hheader, hheader]
      | deallocatePage pool pageNum =>
        intro frame page _ _
        rw [hheader, hheader]
      | record page operation =>
        -- an operation on a record is never made on the header of an index
        intro frame hold data _
        have hne : page ≠ ⟨poolId, firstIndexPage⟩ := h frame hold
        rw [headerOf_ne hne, headerOf_ne hne]
      | bplusTree => trivial
      | transaction => trivial

/-! ### Record files -/

/-- A page reads back whether it is full. -/
theorem isFull_recordBytes {page : RecordPage} (hlow : -2 ^ 31 ≤ page.header.recordNum)
    (hhigh : page.header.recordNum < 2 ^ 31) (hcap : page.header.recordCapacity < 2 ^ 31) :
    (recordPage (recordBytes page)).isFull = page.isFull := by
  have hread : ∀ i x, load (recordBytes page) (0 + i) 4 = bytesOfInt 4 x → -2 ^ 31 ≤ x → x < 2 ^ 31 →
      readInt32 (recordBytes page) i = x := by
    intro i x hload hle hlt
    unfold readInt32
    rw [Nat.zero_add] at hload
    rw [hload, intOfBytes_bytesOfInt]
    exact Int.bmod_eq_of_le (by omega) (by omega)
  have hnum : readInt32 (recordBytes page) 0 = page.header.recordNum := by
    refine hread 0 _ ?_ hlow hhigh
    exact load_memcpy_within (by decide) (Nat.le_refl _)
  have hcapacity : readInt32 (recordBytes page) 16 = page.header.recordCapacity := by
    refine hread 16 _ ?_ (by omega) (by omega)
    exact load_memcpy_within (by decide) (Nat.le_refl _)
  unfold RecordPage.isFull
  show decide (_ ≥ ((readInt32 _ 16).toNat : Int)) = _
  rw [hcapacity, Int.toNat_natCast]
  show decide (readInt32 _ 0 ≥ _) = _
  rw [hnum]

theorem readInt32_range (mem : Memory) (offset : Nat) :
    -2 ^ 31 ≤ readInt32 mem offset ∧ readInt32 mem offset < 2 ^ 31 := by
  unfold readInt32 intOfBytes
  rw [length_load]
  have hle := Int.le_bmod (x := (natOfBytes (load mem offset 4) : Int)) (m := 256 ^ 4) (by decide)
  have hlt := Int.bmod_lt (x := (natOfBytes (load mem offset 4) : Int)) (m := 256 ^ 4) (by decide)
  omega

/-- A page has room for fewer records than an `int` can count. -/
theorem initHeader_capacity_lt (recordSize columnNum : Nat) : (initHeader recordSize columnNum).recordCapacity < 2 ^ 31 := by
  have hle := fixRecordCapacity_le
    (align8 (pageHeaderSize + pageBitmapSize
      (pageRecordCapacity bpPageDataSize (align8 recordSize) (columnNum * 4))) + columnNum * 4)
    (align8 recordSize) (pageRecordCapacity bpPageDataSize (align8 recordSize) (columnNum * 4))
  have hcapacity : pageRecordCapacity bpPageDataSize (align8 recordSize) (columnNum * 4)
      ≤ bpPageDataSize * 8 := by
    unfold pageRecordCapacity
    refine Nat.le_trans (Nat.div_le_self _ _) ?_
    omega
  unfold initHeader
  dsimp only
  unfold bpPageDataSize at hle hcapacity ⊢
  omega

/-- Whether a page is full is in its header. -/
theorem isFull_congr {mem mem' : Memory} (h : ∀ a, a < pageHeaderSize → mem a = mem' a) :
    (recordPage mem).isFull = (recordPage mem').isFull := by
  have hread : ∀ i, i + 4 ≤ pageHeaderSize → readInt32 mem i = readInt32 mem' i := by
    intro i hi
    unfold readInt32
    rw [load_congr fun a _ hlt => h a (by omega)]
  unfold RecordPage.isFull
  show decide (readInt32 mem 0 ≥ ((readInt32 mem 16).toNat : Int)) = _
  rw [hread 0 (by decide), hread 16 (by decide)]
  rfl

/-- A new page is full only if it has room for nothing. -/
theorem isFull_initEmptyPage (recordSize columnNum : Nat) (colIdxData : List UInt8) (mem : Memory) :
    (recordPage (initEmptyPage recordSize columnNum colIdxData mem)).isFull
      = decide ((initHeader recordSize columnNum).recordCapacity = 0) := by
  have hcap := initHeader_capacity_lt recordSize columnNum
  have hheader : ∀ page : RecordPage, ∀ n off m, pageHeaderSize ≤ off →
      (recordPage (memcpy (memset (recordBytes page) pageHeaderSize 0 n) off colIdxData m)).isFull
        = (recordPage (recordBytes page)).isFull := by
    intro page n off m hoff
    refine isFull_congr fun a ha => ?_
    rw [memcpy_of_outside (Or.inl (by omega))]
    unfold memset
    rw [if_neg (by omega)]
  have hzero : -2 ^ 31 ≤ (0 : Int) ∧ (0 : Int) < 2 ^ 31 := by decide
  unfold initEmptyPage
  dsimp only
  rw [hheader, isFull_recordBytes hzero.1 hzero.2 hcap]
  · unfold RecordPage.isFull
    refine decide_eq_decide.mpr ?_
    show ((0 : Int) ≥ ((initHeader recordSize columnNum).recordCapacity : Nat)) ↔ _
    omega
  · unfold initHeader align8
    dsimp only
    omega

/-- What an operation that succeeds does to the number of records. -/
theorem header_of_insertRecord {page page' : RecordPage} {data : List UInt8} {slot : Option Nat}
    (h : page.insertRecord data = some (.success, slot, page')) :
    page'.header = { page.header with recordNum := page.header.recordNum + 1 } := by
  unfold RecordPage.insertRecord at h
  split at h
  · cases h
  · cases hslot : page.bitmap.nextUnsettedBit page.mem 0 with
    | none =>
      rw [hslot] at h
      cases h
    | some index =>
      rw [hslot] at h
      cases h
      rfl

/-- A deletion counts down, and the rest of the header stays. -/
theorem header_of_deleteRecord {page page' : RecordPage} {slotNum : Int}
    (h : page.deleteRecord slotNum = some (.success, page')) :
    page'.header = { page.header with recordNum := page.header.recordNum - 1 } := by
  unfold RecordPage.deleteRecord at h
  cases hbit : page.getBit slotNum with
  | none =>
    rw [hbit] at h
    cases h
  | some bit =>
    rw [hbit] at h
    cases bit with
    | false => cases h
    | true =>
      cases h
      rfl

/-- An update leaves the header. -/
theorem header_of_updateRecord {page page' : RecordPage} {slotNum : Int} {data : List UInt8}
    (h : page.updateRecord slotNum data = some (.success, page')) : page'.header = page.header := by
  unfold RecordPage.updateRecord at h
  split at h
  · cases h
  · cases hbit : page.getBit slotNum with
    | none =>
      rw [hbit] at h
      cases h
    | some bit =>
      rw [hbit] at h
      cases bit with
      | false => cases h
      | true =>
        cases h
        rfl

/-- What a replayed operation leaves is its page. -/
theorem replayed_ok {out : Option (RC × RecordPage)} {data : Memory} (h : replayed out = .ok data) :
    ∃ page, out = some (.success, page) ∧ data = recordBytes page := by
  rcases out with _ | ⟨rc, page⟩
  · cases h
  · unfold replayed at h
    dsimp only at h
    by_cases hrc : rc = .success
    · rw [if_pos hrc] at h
      subst hrc
      exact ⟨page, rfl, (Except.ok.inj h).symm⟩
    · rw [if_neg hrc] at h
      cases h

/-- An operation that is redone leaves a full page full and another one not. -/
theorem QuietOperation.isFull {mem data : Memory} {operation : RecordOperation}
    (h : QuietOperation (recordPage mem) operation) (hredo : operation.redo mem = .ok data) :
    (recordPage data).isFull = (recordPage mem).isFull := by
  have hnum : -2 ^ 31 ≤ (recordPage mem).header.recordNum ∧ (recordPage mem).header.recordNum < 2 ^ 31 :=
    readInt32_range mem 0
  have hcap : (recordPage mem).header.recordCapacity < 2 ^ 31 := by
    have := readInt32_range mem 16
    show (readInt32 mem 16).toNat < 2 ^ 31
    omega
  generalize hp : recordPage mem = p at h hnum hcap ⊢
  -- a page with another number of records
  have hchanged : ∀ (page : RecordPage) (n : Int), data = recordBytes page →
      page.header = { p.header with recordNum := n } → -2 ^ 31 ≤ n → n < 2 ^ 31 →
      (n ≥ p.header.recordCapacity ↔ p.header.recordNum ≥ p.header.recordCapacity) →
      (recordPage data).isFull = p.isFull := by
    intro page n hdata hheader hlow hhigh hiff
    rw [hdata, isFull_recordBytes]
    · unfold RecordPage.isFull
      rw [hheader]
      exact decide_eq_decide.mpr hiff
    · rw [hheader]
      exact hlow
    · rw [hheader]
      exact hhigh
    · rw [hheader]
      exact hcap
  cases operation with
  | initPage recordSize columnNum colIdx =>
    obtain rfl : initEmptyPage recordSize columnNum colIdx mem = data := Except.ok.inj hredo
    exact (isFull_initEmptyPage ..).trans (Eq.symm h)
  | insert record =>
    have hroom : p.header.recordNum + 1 < p.header.recordCapacity := h
    obtain ⟨page, hpage, hdata⟩ := replayed_ok hredo
    obtain ⟨⟨rc, slot, page'⟩, hinsert, heq⟩ := Option.map_eq_some_iff.mp hpage
    obtain ⟨rfl, rfl⟩ := Prod.mk.inj heq
    rw [hp] at hinsert
    exact hchanged _ _ hdata (header_of_insertRecord hinsert) (by omega) (by omega) (by omega)
  | delete slotNum =>
    obtain ⟨hsome, hroom⟩ : 0 < p.header.recordNum ∧ p.header.recordNum < p.header.recordCapacity := h
    obtain ⟨page, hpage, hdata⟩ := replayed_ok hredo
    rw [hp] at hpage
    exact hchanged _ _ hdata (header_of_deleteRecord hpage) (by omega) (by omega) (by omega)
  | update slotNum record =>
    obtain ⟨page, hpage, hdata⟩ := replayed_ok hredo
    rw [hp] at hpage
    exact hchanged _ _ hdata (header_of_updateRecord hpage) hnum.1 hnum.2 Iff.rfl

/-- Which pages are full is read from what is kept. -/
theorem QuietRecords.writesKeep (h : QuietRecords poolId s) : WritesKeep (fullnessOf poolId) s := by
  obtain ⟨table, redoing, log⟩ := s
  cases redoing with
  -- nothing is replayed on a tree of the file
  | some redo =>
    intro entry entries hentries frame hold
    by_cases hpool : redo.poolId = poolId
    · have hquiet := h hpool entry entries hentries frame
      subst hpool
      exact absurd hold hquiet
    · obtain ⟨pageNum, body⟩ := entry
      cases body with
      | updateRootPage rootPageNum oldPageNum =>
        intro first hfirst
        rw [fullnessOf_ne hpool, fullnessOf_ne hpool]
      | _ =>
        intro data hdata
        rw [fullnessOf_ne hpool, fullnessOf_ne hpool]
  | none =>
    cases log with
    | nil => trivial
    | cons entry log =>
      obtain ⟨lsn, record⟩ := entry
      cases record with
      | allocatePage pool pageNum =>
        -- the bit is set already, so the redo returns before the page is written
        intro frame page hseen hredo
        by_cases hpool : pool = poolId
        · have hquiet := h hpool frame
          subst hpool
          unfold redoAllocatePage at hredo
          dsimp only at hredo
          by_cases hlsn : frame.lsn ≥ lsn
          · rw [if_pos hlsn] at hredo
            cases hredo
          · rw [if_neg hlsn] at hredo
            obtain ⟨hlt, hbit⟩ := hquiet ⟨hseen, Int.not_le.mp hlsn⟩
            rw [if_pos hlt, if_pos hbit] at hredo
            split at hredo <;> cases hredo
        · rw [fullnessOf_ne (k := headerPage pool) hpool, fullnessOf_ne (k := headerPage pool) hpool]
      | deallocatePage pool pageNum =>
        -- the dispose of a page that is older than the frame is not replayed
        intro frame page hseen hredo
        by_cases hpool : pool = poolId
        · have hquiet := h hpool frame
          subst hpool
          unfold redoDeallocatePage at hredo
          dsimp only at hredo
          by_cases hlsn : frame.lsn ≥ lsn
          · rw [if_pos hlsn] at hredo
            cases hredo
          · exact absurd ⟨hseen, Int.not_le.mp hlsn⟩ hquiet
        · rw [fullnessOf_ne (k := headerPage pool) hpool, fullnessOf_ne (k := headerPage pool) hpool]
      | record page operation =>
        -- the operation leaves the page as full as it was
        intro frame hold data hdata
        by_cases hpool : page.poolId = poolId
        · obtain ⟨hne, hquiet⟩ := h hpool frame hold
          exact fullnessOf_record hne (hquiet.isFull hdata)
        · rw [fullnessOf_ne hpool, fullnessOf_ne hpool]
      | bplusTree => trivial
      | transaction => trivial

/-! ### What is read off the pages -/

section Reading

variable {seen seen' : PageId → Option Page}

/-- The header is read from the first page of the index. -/
theorem readFileHeader_eq (seen : PageId → Option Page) (poolId : Int) :
    readFileHeader seen poolId = ((seen ⟨poolId, firstIndexPage⟩).map
      (headerOf poolId ⟨poolId, firstIndexPage⟩)).map IndexFileHeader.ofBytes := by
  unfold readFileHeader headerOf
  cases seen ⟨poolId, firstIndexPage⟩ with
  | none => rfl
  | some page =>
    rw [Option.map_some, Option.map_some, Option.map_some, if_pos rfl]
    rfl

theorem readFileHeader_congr
    (h : ∀ k, (seen k).map (headerOf poolId k) = (seen' k).map (headerOf poolId k)) :
    readFileHeader seen poolId = readFileHeader seen' poolId := by
  rw [readFileHeader_eq, readFileHeader_eq, h]

/-- The pages with room are found by fullness alone. -/
theorem freePagesAmong_congr
    (h : ∀ k, (seen k).map (fullnessOf poolId k) = (seen' k).map (fullnessOf poolId k))
    {pages : List PageNum} (hpages : ∀ p ∈ pages, 1 ≤ p) :
    freePagesAmong seen poolId pages = freePagesAmong seen' poolId pages := by
  induction pages with
  | nil => rfl
  | cons p pages ih =>
    have ih := ih fun q hq => hpages q (List.mem_cons_of_mem p hq)
    have hp : (⟨poolId, p⟩ : PageId) ≠ headerPage poolId := by
      intro heq
      have hzero : p = 0 := congrArg PageId.pageNum heq
      subst hzero
      exact absurd (hpages 0 List.mem_cons_self) (by decide)
    have hfull : ∀ page, fullnessOf poolId ⟨poolId, p⟩ page = ([], (recordPage page.data).isFull) := by
      intro page
      unfold fullnessOf
      rw [if_neg hp, if_pos rfl]
    have hsame := h ⟨poolId, p⟩
    unfold freePagesAmong
    cases hl : seen ⟨poolId, p⟩ with
    | none =>
      rw [hl] at hsame
      cases hr : seen' ⟨poolId, p⟩ with
      | none => rfl
      | some page' =>
        rw [hr] at hsame
        cases hsame
    | some page =>
      rw [hl] at hsame
      cases hr : seen' ⟨poolId, p⟩ with
      | none =>
        rw [hr] at hsame
        cases hsame
      | some page' =>
        rw [hr, Option.map_some, Option.map_some, hfull, hfull] at hsame
        have hbit := (Prod.mk.inj (Option.some.inj hsame)).2
        dsimp only
        rw [hbit, ih]

theorem one_le_of_mem_dataPages {header : Memory} {p : PageNum} (h : p ∈ dataPages header) : 1 ≤ p := by
  obtain ⟨n, hn, rfl⟩ := List.mem_map.mp h
  have hone := (Bool.and_eq_true_iff.mp (List.mem_filter.mp hn).2).1
  exact Int.ofNat_le.mpr (of_decide_eq_true hone)

/-- So is what `init_free_pages` collects. -/
theorem initFreePages_congr
    (h : ∀ k, (seen k).map (fullnessOf poolId k) = (seen' k).map (fullnessOf poolId k)) :
    initFreePages seen poolId = initFreePages seen' poolId := by
  have hpages : ∀ page, fullnessOf poolId (headerPage poolId) page = (dataPages page.data, false) :=
    fun _ => if_pos rfl
  have hsame := h (headerPage poolId)
  unfold initFreePages
  cases hl : seen (headerPage poolId) with
  | none =>
    rw [hl] at hsame
    cases hr : seen' (headerPage poolId) with
    | none => rfl
    | some page' =>
      rw [hr] at hsame
      cases hsame
  | some page =>
    rw [hl] at hsame
    cases hr : seen' (headerPage poolId) with
    | none =>
      rw [hr] at hsame
      cases hsame
    | some page' =>
      rw [hr, Option.map_some, Option.map_some, hpages, hpages] at hsame
      have hdata := (Prod.mk.inj (Option.some.inj hsame)).1
      dsimp only
      rw [hdata]
      exact freePagesAmong_congr h fun p hp => one_le_of_mem_dataPages hp

end Reading

end Aspects

/-! ## Runs -/

section Run

variable {db db' : Db} {replayer s : Replayer} {as : List ReplayAction} {indexPools recordPools : List Int}
  {table table' : FrameTable PageId Page}

/-- The induction is on the steps; `hquiet` is what each of them is allowed to write. -/
theorem run_keeps {X : Type} {g : PageId → Page → X} {x : PageId → Option X} (hlsn : IgnoresLsn g)
    (hquiet : ∀ {s}, (∀ index ∈ db.indexes, QuietIndex index.1 s) →
      (∀ file ∈ db.recordFiles, QuietRecords file.1 s) → WritesKeep g s)
    (h : s.table.Keeps g x) (hrun : QuietRun db s as) :
    Returns (s.run db.pools as) fun s' => s'.table.Keeps g x := by
  induction as generalizing s with
  | nil => exact Returns.ok h
  | cons a as ih =>
    obtain ⟨hstep, hrest⟩ := hrun
    have hnext : Returns (s.step db.pools a) fun s' => s'.table.Keeps g x := by
      cases a with
      | evict page => exact Returns.ok (h.evict page)
      | next =>
        obtain ⟨hindexes, hfiles⟩ := hstep rfl
        exact next_keeps hlsn h (hquiet hindexes hfiles)
    intro s' hs'
    obtain ⟨s₁, hs₁, hs'⟩ := ok_of_bind hs'
    exact ih (hnext s₁ hs₁) (hrest s₁ hs₁) s' hs'

/-- Nothing is in a frame that is not on disk. -/
def AsOnDisk (table : FrameTable PageId Page) : Prop :=
  ∀ k frame, table.frames k = some frame → table.disk k = some frame.page

theorem AsOnDisk.keeps {X : Type} (h : AsOnDisk table) (g : PageId → Page → X) :
    table.Keeps g fun k => (table.disk k).map (g k) where
  disk := fun _ => rfl
  frame := fun k frame hframe => by rw [h k frame hframe]; rfl

/-- Without frames everybody sees the disk. -/
theorem AsOnDisk.seen (h : AsOnDisk table) : table.seen = table.disk := by
  funext k
  cases hf : table.frames k with
  | some frame => rw [FrameTable.seen_of_frame hf, h k frame hf]
  | none =>
    unfold FrameTable.seen
    rw [hf]

/-- An index that is opened has the header its file has then. -/
theorem mem_of_openIndexes {seen : PageId → Option Page} {indexes : List (Int × IndexFileHeader)}
    (h : indexPools.mapM (Db.openIndex seen) = .ok indexes) {poolId : Int} {header : IndexFileHeader}
    (hmem : (poolId, header) ∈ indexes) : readFileHeader seen poolId = some header := by
  induction indexPools generalizing indexes with
  | nil =>
    obtain rfl := Except.ok.inj h
    cases hmem
  | cons pool indexPools ih =>
    rw [List.mapM_cons] at h
    obtain ⟨index, hindex, h⟩ := ok_of_bind h
    obtain ⟨rest, hrest, h⟩ := ok_of_bind h
    obtain rfl := Except.ok.inj h
    rcases List.mem_cons.mp hmem with rfl | hmem
    · unfold Db.openIndex at hindex
      cases hheader : readFileHeader seen pool with
      | none =>
        rw [hheader] at hindex
        cases hindex
      | some header' =>
        rw [hheader] at hindex
        dsimp only at hindex
        by_cases hlen : header'.keyLength ≤ 0
        · rw [if_pos hlen] at hindex
          cases hindex
        · rw [if_neg hlen] at hindex
          obtain ⟨rfl, rfl⟩ := Prod.mk.inj (Except.ok.inj hindex)
          exact hheader
    · exact ih hrest hmem

/-- Opening all tables takes what is seen, and keeps the replayer. -/
theorem openAllTables_ok (h : Db.openAllTables replayer indexPools recordPools = .ok db) :
    db.replayer = replayer ∧ db.Fresh := by
  obtain ⟨indexes, hindexes, hdb⟩ := ok_of_bind h
  obtain rfl := Except.ok.inj hdb
  refine ⟨rfl, ⟨fun poolId header hmem => ?_, fun poolId freePages hmem => ?_⟩⟩
  · exact mem_of_openIndexes hindexes hmem
  · obtain ⟨pool, -, heq⟩ := List.mem_map.mp hmem
    obtain ⟨rfl, rfl⟩ := Prod.mk.inj heq
    rfl

/-- **Open files and recovery.**  As long as nothing that is redone changes what was read when the files
    were opened, what the open files hold is what their pages say. -/
theorem open_files_fresh (hdisk : AsOnDisk replayer.table)
    (hopen : Db.openAllTables replayer indexPools recordPools = .ok db)
    (hrun : QuietRun db db.replayer as) : Returns (db.recover as) Db.Fresh := by
  obtain ⟨hreplayer, hfresh⟩ := openAllTables_ok hopen
  rw [← hreplayer] at hdisk
  intro db' hdb'
  obtain ⟨s, hs, hdb'⟩ := ok_of_bind hdb'
  obtain rfl := Except.ok.inj hdb'
  have hkeeps : ∀ {X : Type} {g : PageId → Page → X}, IgnoresLsn g →
      (∀ {s}, (∀ index ∈ db.indexes, QuietIndex index.1 s) →
        (∀ file ∈ db.recordFiles, QuietRecords file.1 s) → WritesKeep g s) →
      ∀ k, (s.table.seen k).map (g k) = (db.replayer.table.seen k).map (g k) := by
    intro X g hlsn hquiet k
    rw [hdisk.seen]
    exact (run_keeps hlsn hquiet (hdisk.keeps g) hrun s hs).seen k
  constructor
  · intro poolId header hmem
    rw [← hfresh.indexes poolId header hmem]
    exact readFileHeader_congr (hkeeps headerOf_ignoresLsn fun hindexes _ =>
      (hindexes _ hmem).writesKeep)
  · intro poolId freePages hmem
    rw [← hfresh.recordFiles poolId freePages hmem]
    exact initFreePages_congr (hkeeps fullnessOf_ignoresLsn fun _ hfiles =>
      (hfiles _ hmem).writesKeep)

end Run

/-! ## One index and one record file -/

/-- The first page of an index without a root, with keys of four bytes. -/
def rootlessHeader : Memory := writeInt32 (writeInt32 (fun _ => 0) 0 bpInvalidPageNum) 20 4

/-- The header page of a pool of two pages. -/
def twoPagesHeader : Memory := memcpy (fun _ => 0) 4 (bytesOfInt 4 2 ++ bytesOfInt 4 2 ++ [3]) 9

/-- A page with one record of eight. -/
def oneRecordPage : Memory := memcpy (writeInt32 (writeInt32 (fun _ => 0) 0 1) 16 8) 28 [1] 1

/-- An index in pool 1, and records in pool 2. -/
def twoFiles (log : List (Int × LogRecord)) : Replayer where
  table :=
    { disk := fun page =>
        if page.pageNum = 0 then some ⟨0, twoPagesHeader⟩
        else if page = ⟨1, firstIndexPage⟩ then some ⟨0, rootlessHeader⟩
        else if page = ⟨2, 1⟩ then some ⟨0, oneRecordPage⟩ else none
      frames := fun page => if page.pageNum = 0 then some ⟨⟨0, twoPagesHeader⟩, false⟩ else none
      pins := [headerPage 1, headerPage 2] }
  redoing := none
  log

/-- The files, opened. -/
def twoFilesOpen (log : List (Int × LogRecord)) : Db where
  replayer := twoFiles log
  indexes := [(1, indexFileHeader rootlessHeader)]
  recordFiles := [(2, [1])]

theorem openAllTables_twoFiles (log : List (Int × LogRecord)) :
    Db.openAllTables (twoFiles log) [1] [2] = .ok (twoFilesOpen log) := rfl

/-- At the start the frames are empty. -/
theorem asOnDisk_twoFiles (log : List (Int × LogRecord)) : AsOnDisk (twoFiles log).table := by
  intro page frame hframe
  unfold twoFiles at hframe ⊢
  dsimp only at hframe ⊢
  by_cases hpage : page.pageNum = 0
  · rw [if_pos hpage] at hframe ⊢
    obtain rfl := Option.some.inj hframe
    rfl
  · rw [if_neg hpage] at hframe
    cases hframe

/-- The record is deleted: the page is not full before and behind it. -/
theorem open_files_fresh_delete :
    ((twoFilesOpen [(5, .record ⟨2, 1⟩ (.delete 0))]).recover [.next, .evict ⟨2, 1⟩]).isOk = true ∧
    Returns ((twoFilesOpen [(5, .record ⟨2, 1⟩ (.delete 0))]).recover [.next, .evict ⟨2, 1⟩]) Db.Fresh := by
  refine ⟨rfl, open_files_fresh (asOnDisk_twoFiles _) (openAllTables_twoFiles _) ?_⟩
  refine ⟨fun _ => ⟨fun index hindex => ?_, fun file hfile => ?_⟩, fun _ _ => ⟨fun h => ?_, fun _ _ => trivial⟩⟩
  · obtain rfl := List.mem_singleton.mp hindex
    intro frame _
    decide
  · obtain rfl := List.mem_singleton.mp hfile
    intro _ frame hold
    obtain rfl := Option.some.inj hold.1
    refine ⟨by decide, ?_, ?_⟩
    · decide
    · decide
  · cases h

/-- The first entry gives the index its root, and the open index does not know. -/
theorem root_not_updated :
    ¬ Returns ((twoFilesOpen [(5, .bplusTree 1 [⟨1, .updateRootPage 2 (-1)⟩])]).recover [.next, .next, .next])
      Db.Fresh := by
  intro h
  have hfresh := (h _ rfl).indexes 1 _ List.mem_cons_self
  have hroot := congrArg (fun x => x.map IndexFileHeader.rootPage) hfresh
  revert hroot
  decide

end Miniob.Recovery
