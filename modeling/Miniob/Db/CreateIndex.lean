/-
  CREATE INDEX with what it leaves behind (`Table::create_index` in src/observer/storage/table/table.cpp,
  `BplusTreeHandler::create` in storage/index/bplus_tree.cpp, `BufferPoolManager` in
  storage/buffer/disk_buffer_pool.cpp).

  1. `OpenTable` is the table with its metadata, the files on disk and the buffer pools that are open.  An
     `Environment` answers the calls to the operating system and the buffer pool, so that every step may fail.
  2. `fillIndex_spec`, the crux: the loop enters the records the scan reaches, exactly if every insertion finds
     a page and no two of the records have equal keys; else it stops with the file and the pool in place.
  3. The steps around the loop, each with what it leaves: `createTree` fails without a trace only if the file
     cannot be created, `dropIndex` undoes it if it can close the pool and unlink the file, and behind
     `push_back` nothing is undone.
  4. `create_index_all_or_nothing_iff` puts these together.

  The paths are those of a base directory without a slash at its end.  The pages of the files are left out, but
  for the tree of the index.
-/
import Miniob.Db.Indexed
import Miniob.Schema.Restart

namespace Miniob.Db

open Miniob.Common Miniob.Storage Miniob.Trx Miniob.Schema TableIndex
open Miniob.Index (IndexKey)

variable {D U : Type}

/-! ## The table on disk -/

/-- What a file on disk can be. -/
inductive FileData where
  /-- A file whose writing was broken off. -/
  | unfinished
  /-- A file of a buffer pool. -/
  | bufferPool
  /-- The text of the metadata. -/
  | tableMeta (table : TableMeta)

/-- A table, the files on disk and the pools of `BufferPoolManager::buffer_pools_`. -/
structure OpenTable (D U : Type) where
  baseDir : String
  table : Table D U
  tableMeta : TableMeta
  files : String → Option FileData
  bufferPools : String → Bool

/-- The codes other than `SUCCESS`. -/
inductive Failure where
  | schemaDbExist
  | bufferpoolOpen
  | ioerrOpen
  | other (rc : RC)

/-- How far `BufferPoolManager::create_file` gets with a file that is not there. -/
inductive Creation where
  /-- The system does not create the file. -/
  | refused
  /-- The file is there, its header is not. -/
  | brokenOff (rc : RC)
  | done

/-- The answers of the operating system and the buffer pool during one call; `none` is `SUCCESS`. -/
structure Environment where
  createFile : Creation
  /-- `DiskBufferPool::open_file`. -/
  openFile : Option RC
  /-- The header page of the tree. -/
  createTree : Option RC
  /-- The `n`-th call of `scanner.next` fails. -/
  next : Nat → Option RC
  /-- The `n`-th call of `insert_entry` gets no page. -/
  insertEntry : Nat → Option RC
  /-- `DiskBufferPool::close_file`. -/
  closeFile : Bool
  unlink : Bool
  openTmp : Bool
  serialize : Bool
  rename : Bool

namespace OpenTable

/-- `table_index_file`. -/
def indexFile (s : OpenTable D U) (indexName : String) : String :=
  s.baseDir ++ "/" ++ s.tableMeta.name ++ "-" ++ indexName ++ ".index"

/-- `table_meta_file`. -/
def metaFile (s : OpenTable D U) : String := s.baseDir ++ "/" ++ s.tableMeta.name ++ ".table"

def tmpFile (s : OpenTable D U) : String := s.metaFile ++ ".tmp"

def setFile (s : OpenTable D U) (file : String) (data : Option FileData) : OpenTable D U :=
  { s with files := Function.update s.files file data }

def setPool (s : OpenTable D U) (file : String) (isOpen : Bool) : OpenTable D U :=
  { s with bufferPools := Function.update s.bufferPools file isOpen }

/-- `BplusTreeHandler::create`: the file, its pool and the header page. -/
def createTree (env : Environment) (s : OpenTable D U) (file : String) : Option Failure × OpenTable D U :=
  if (s.files file).isSome then (some .schemaDbExist, s)
  else match env.createFile with
    | .refused => (some .schemaDbExist, s)
    | .brokenOff rc => (some (.other rc), s.setFile file (some .unfinished))
    | .done =>
      let s := s.setFile file (some .bufferPool)
      if s.bufferPools file then (some .bufferpoolOpen, s)
      else match env.openFile with
        | some rc => (some (.other rc), s)
        | none =>
          let s := s.setPool file true
          match env.createTree with
          | some rc => (some (.other rc), s.setPool file false)
          | none => (none, s)

/-- `index->close` and `unlink`, of which neither is checked. -/
def dropIndex (env : Environment) (s : OpenTable D U) (file : String) : OpenTable D U :=
  let s := if env.closeFile then s.setPool file false else s
  if env.unlink then s.setFile file none else s

/-- The end of `create_index`: the new metadata is written to a file of its own, which takes the place of the
    old one. -/
def replaceMeta (env : Environment) (s : OpenTable D U) (newTableMeta : TableMeta) :
    Option Failure × OpenTable D U :=
  if !env.openTmp then (some .ioerrOpen, s)
  else if !env.serialize then (some (.other .ioerrWrite), s.setFile s.tmpFile (some .unfinished))
  else
    let s := s.setFile s.tmpFile (some (.tableMeta newTableMeta))
    if !env.rename then (some (.other .ioerrWrite), s)
    else
      let s := (s.setFile s.tmpFile none).setFile s.metaFile (some (.tableMeta newTableMeta))
      (none, { s with tableMeta := s.tableMeta.swap newTableMeta })

end OpenTable

/-! ## The loop -/

/-- `visit_record` of the session's transaction; the vacuous one sees everything. -/
abbrev Sees (trx : Option Int) (r : Row D) : Prop := ∀ trxId ∈ trx, Visible trxId r

/-- The records the scanner delivers, in its order. -/
def scan (trx : Option Int) (file : RecordFile D) : List (RecordId × D) :=
  file.rids.filterMap fun rid => (file.row rid).bind fun r => if Sees trx r then some (rid, r.data) else none

/-- How the loop ends. -/
inductive Filled where
  | all
  | insertFailed (rc : RC)
  | scanFailed (rc : RC)

/-- The loop of `create_index`, from the `n`-th call of `scanner.next` on. -/
def fillNewIndex (env : Environment) (n : Nat) (index : TableIndex D U) :
    List (RecordId × D) → Except Fault (Filled × TableIndex D U)
  | [] =>
    match env.next n with
    | some rc => .ok (.scanFailed rc, index)
    | none => .ok (.all, index)
  | (rid, record) :: rows =>
    match env.next n with
    | some rc => .ok (.scanFailed rc, index)
    | none =>
      match env.insertEntry n with
      | some rc => .ok (.insertFailed rc, index)
      | none => do
        let (rc, index) ← index.insertEntry record rid
        if rc ≠ .success then return (.insertFailed rc, index)
        fillNewIndex env (n + 1) index rows

/-- What the tree is created with; `keys` says how the fields of a record are read and compared. -/
def keyMeta (keys : List FieldMeta → Db.IndexMeta D U) (fieldsMeta : List FieldMeta) (unique : Bool) :
    Db.IndexMeta D U :=
  { keys fieldsMeta with unique }

/-- What `Table::create_index` does behind the loop. -/
def OpenTable.finishIndex (env : Environment) (s : OpenTable D U) (indexFile : String)
    (newIndexMeta : Schema.IndexMeta) : Filled × TableIndex D U → Option Failure × OpenTable D U
  | (.insertFailed rc, _) => (some (.other rc), s)
  | (.scanFailed rc, _) => (some (.other rc), s.dropIndex env indexFile)
  | (.all, index) =>
    let s := { s with table := { s.table with indexes := s.table.indexes ++ [index] } }
    s.replaceMeta env (s.tableMeta.copy.addIndex newIndexMeta)

/-- `Table::create_index`. -/
def OpenTable.createIndex (env : Environment) (keys : List FieldMeta → Db.IndexMeta D U) (s : OpenTable D U)
    (trx : Option Int) (fieldsMeta : List FieldMeta) (indexName : String) (unique : Bool) :
    Except Fault (Option Failure × OpenTable D U) :=
  if isBlank indexName then .ok (some (.other .invalidArgument), s)
  else match Schema.IndexMeta.init indexName fieldsMeta unique with
    | .error rc => .ok (some (.other rc), s)
    | .ok newIndexMeta =>
      match s.createTree env (s.indexFile indexName) with
      | (some rc, s) => .ok (some rc, s)
      | (none, s) =>
        (fillNewIndex env 0 (keyMeta keys fieldsMeta unique).create (scan trx s.table.file)).map
          (s.finishIndex env (s.indexFile indexName) newIndexMeta)

/-! ## What the steps leave -/

section Steps

variable {env : Environment} {s : OpenTable D U} {file : String}

/-- The file and its pool as `createTree` leaves them. -/
def OpenTable.created (s : OpenTable D U) (file : String) : OpenTable D U :=
  (s.setFile file (some .bufferPool)).setPool file true

/-- Nothing is in the way of the file, its pool and the header page. -/
structure CreatesTree (env : Environment) (s : OpenTable D U) (file : String) : Prop where
  absent : s.files file = none
  createFile : env.createFile = .done
  closed : s.bufferPools file = false
  openFile : env.openFile = none
  createTree : env.createTree = none

theorem OpenTable.ne_of_files {s' : OpenTable D U} (h : s'.files file ≠ s.files file) : s' ≠ s := by
  rintro rfl
  exact h rfl

theorem OpenTable.setFile_files (data : Option FileData) : (s.setFile file data).files file = data :=
  Function.update_self ..

@[simp] theorem OpenTable.setFile_bufferPools (data : Option FileData) :
    (s.setFile file data).bufferPools = s.bufferPools := rfl

theorem OpenTable.created_ne (h : s.files file = none) : s.created file ≠ s := by
  refine ne_of_files (?_ : (s.created file).files file ≠ s.files file)
  show Function.update s.files file (some FileData.bufferPool) file ≠ s.files file
  rw [Function.update_self, h]
  exact Option.some_ne_none _

/-- The first step is refused, is done, or breaks off with the file in place. -/
theorem OpenTable.createTree_spec :
    (((s.files file).isSome ∨ env.createFile = .refused) ∧
      s.createTree env file = (some .schemaDbExist, s)) ∨
    (CreatesTree env s file ∧ s.createTree env file = (none, s.created file)) ∨
    (s.files file = none ∧ env.createFile ≠ .refused ∧ ¬ CreatesTree env s file ∧
      ∃ rc s', s' ≠ s ∧ s.createTree env file = (some rc, s')) := by
  cases hfile : s.files file with
  | some data => exact Or.inl ⟨Or.inl rfl, by rw [createTree, hfile]; rfl⟩
  | none =>
    -- whatever comes behind the creation leaves the file
    have hleft : ∀ {data : FileData} {s' : OpenTable D U}, s'.files file = some data → s' ≠ s := by
      intro data s' h'
      apply @ne_of_files D U s file s'
      rw [h', hfile]
      exact Option.some_ne_none _
    cases hcreate : env.createFile with
    | refused => exact Or.inl ⟨Or.inr rfl, by simp [createTree, hfile, hcreate]⟩
    | brokenOff rc =>
      refine Or.inr (Or.inr ⟨rfl, Creation.noConfusion, fun h => ?_, .other rc, s.setFile file (some .unfinished),
        hleft (setFile_files _), by simp [createTree, hfile, hcreate]⟩)
      cases hcreate.symm.trans h.createFile
    | done =>
      cases hclosed : s.bufferPools file with
      | true =>
        refine Or.inr (Or.inr ⟨rfl, Creation.noConfusion, fun h => ?_, .bufferpoolOpen,
          s.setFile file (some .bufferPool), hleft (setFile_files _),
          by simp [createTree, hfile, hcreate, hclosed]⟩)
        cases hclosed.symm.trans h.closed
      | false =>
        cases hopen : env.openFile with
        | some rc =>
          refine Or.inr (Or.inr ⟨rfl, Creation.noConfusion, fun h => ?_, .other rc,
            s.setFile file (some .bufferPool), hleft (setFile_files _),
            by simp [createTree, hfile, hcreate, hclosed, hopen]⟩)
          cases hopen.symm.trans h.openFile
        | none =>
          cases htree : env.createTree with
          | some rc =>
            refine Or.inr (Or.inr ⟨rfl, Creation.noConfusion, fun h => ?_, .other rc,
              (s.created file).setPool file false, hleft (setFile_files _),
              by simp [createTree, created, hfile, hcreate, hclosed, hopen, htree]⟩)
            cases htree.symm.trans h.createTree
          | none =>
            exact Or.inr (Or.inl ⟨⟨hfile, hcreate, hclosed, hopen, htree⟩,
              by simp [createTree, created, hfile, hcreate, hclosed, hopen, htree]⟩)

/-- Closing and unlinking take back the file and the pool, if both work. -/
theorem OpenTable.dropIndex_created (h : CreatesTree env s file) :
    (s.created file).dropIndex env file = s ↔ env.closeFile = true ∧ env.unlink = true := by
  constructor
  · intro heq
    have hpool := congrFun (congrArg OpenTable.bufferPools heq) file
    have hfile := congrFun (congrArg OpenTable.files heq) file
    rw [h.closed] at hpool
    rw [h.absent] at hfile
    cases hc : env.closeFile <;> cases hu : env.unlink <;>
      simp [dropIndex, created, setFile, setPool, hc, hu] at hpool hfile ⊢
  · rintro ⟨hc, hu⟩
    have hpools : Function.update s.bufferPools file false = s.bufferPools :=
      Function.update_eq_self_iff.mpr h.closed.symm
    have hfiles : Function.update s.files file none = s.files :=
      Function.update_eq_self_iff.mpr h.absent.symm
    simp only [dropIndex, created, setFile, setPool, hc, hu, if_true, Function.update_idem, hpools, hfiles]

/-- Replacing the meta file leaves the rows and the indexes. -/
theorem OpenTable.replaceMeta_table (newTableMeta : TableMeta) :
    (s.replaceMeta env newTableMeta).2.table = s.table := by
  unfold replaceMeta
  split
  · rfl
  · split
    · rfl
    · dsimp only
      split <;> rfl

theorem OpenTable.replaceMeta_eq_none_iff (newTableMeta : TableMeta) :
    (s.replaceMeta env newTableMeta).1 = none ↔
      env.openTmp = true ∧ env.serialize = true ∧ env.rename = true := by
  cases ho : env.openTmp <;> cases hs : env.serialize <;> cases hr : env.rename <;>
    simp [replaceMeta, ho, hs, hr]

/-- With all records entered the index is in `indexes_`, whatever becomes of the metadata. -/
theorem OpenTable.finishIndex_all {newIndexMeta : Schema.IndexMeta} {index : TableIndex D U} :
    (s.finishIndex env file newIndexMeta (.all, index)).2.table =
      { s.table with indexes := s.table.indexes ++ [index] } ∧
    ((s.finishIndex env file newIndexMeta (.all, index)).1 = none ↔
      env.openTmp = true ∧ env.serialize = true ∧ env.rename = true) :=
  ⟨replaceMeta_table _, replaceMeta_eq_none_iff _⟩

theorem addedIndex_ne {t : Table D U} (index : TableIndex D U) :
    t ≠ { t with indexes := t.indexes ++ [index] } := by
  intro h
  have := congrArg (fun t : Table D U => t.indexes.length) h
  simp at this

theorem addedIndex_inj {t : Table D U} {index index' : TableIndex D U}
    (h : ({ t with indexes := t.indexes ++ [index] } : Table D U) = { t with indexes := t.indexes ++ [index'] }) :
    index = index' := by
  have := List.append_cancel_left (congrArg Table.indexes h)
  exact List.singleton_inj.mp this

end Steps

/-! ## What the loop enters -/

section Loop

variable {env : Environment} {m : Db.IndexMeta D U}

/-- The records that the scan gets to. -/
def reached (env : Environment) (n : Nat) : List (RecordId × D) → List (RecordId × D)
  | [] => []
  | row :: rows =>
    match env.next n with
    | some _ => []
    | none => row :: reached env (n + 1) rows

/-- The error that the scan ends with. -/
def scanError (env : Environment) (n : Nat) : List (RecordId × D) → Option RC
  | [] => env.next n
  | _ :: rows =>
    match env.next n with
    | some rc => some rc
    | none => scanError env (n + 1) rows

/-- The tree takes the two records for the same key. -/
def SameKey (m : Db.IndexMeta D U) (a b : RecordId × D) : Prop :=
  m.create.cmp (m.create.entry a.2 a.1).1 (m.create.entry b.2 b.1).1 = .eq

/-- Every record gets the pages for its entry, and no two of them have equal keys. -/
structure Enterable (env : Environment) (m : Db.IndexMeta D U) (n : Nat) (rows : List (RecordId × D)) :
    Prop where
  pages : ∀ k < rows.length, env.insertEntry (n + k) = none
  distinct : rows.Pairwise fun a b => ¬ SameKey m a b

theorem enterable_nil {n : Nat} : Enterable env m n [] := ⟨fun _ h => absurd h (Nat.not_lt_zero _), .nil⟩

/-- The first row goes in, and no later one has its key. -/
theorem enterable_cons_iff {n : Nat} {row : RecordId × D} {rows : List (RecordId × D)} :
    Enterable env m n (row :: rows) ↔
      env.insertEntry n = none ∧ (∀ row' ∈ rows, ¬ SameKey m row row') ∧ Enterable env m (n + 1) rows := by
  constructor
  · rintro ⟨hpages, hdistinct⟩
    obtain ⟨hrow, hrows⟩ := List.pairwise_cons.mp hdistinct
    refine ⟨hpages 0 (Nat.zero_lt_succ _), hrow, fun k hk => ?_, hrows⟩
    have := hpages (k + 1) (Nat.succ_lt_succ hk)
    rwa [show n + 1 + k = n + (k + 1) by omega]
  · rintro ⟨hn, hrow, hpages, hrows⟩
    refine ⟨fun k hk => ?_, List.pairwise_cons.mpr ⟨hrow, hrows⟩⟩
    cases k with
    | zero => exact hn
    | succ k =>
      have := hpages k (Nat.lt_of_succ_lt_succ hk)
      rwa [show n + (k + 1) = n + 1 + k by omega]

/-- How the loop ends if every insertion works. -/
def Filled.ofScan : Option RC → Filled
  | none => .all
  | some rc => .scanFailed rc

/-- No entry has the key of one of the records. -/
def Fresh (m : Db.IndexMeta D U) (es : List (IndexKey U × RecordId)) (rows : List (RecordId × D)) : Prop :=
  ∀ e ∈ es, ∀ row ∈ rows, m.create.cmp e.1 (m.create.entry row.2 row.1).1 ≠ .eq

/-- The tree has no key of the rows to come. -/
theorem fresh_cons_iff {es : List (IndexKey U × RecordId)} {row : RecordId × D} {rows : List (RecordId × D)} :
    Fresh m es (row :: rows) ↔
      (∀ e ∈ es, m.create.cmp e.1 (m.create.entry row.2 row.1).1 ≠ .eq) ∧ Fresh m es rows := by
  constructor
  · exact fun h => ⟨fun e he => h e he row (by simp), fun e he r hr => h e he r (List.mem_cons_of_mem row hr)⟩
  · rintro ⟨hrow, hrows⟩ e he r hr
    rcases List.mem_cons.mp hr with rfl | hr
    · exact hrow e he
    · exact hrows e he r hr

/-- With the entry of `row` added, the others are fresh if they were and none has the key of `row`. -/
theorem fresh_insert_iff {es es' : List (IndexKey U × RecordId)} {row : RecordId × D}
    {rows : List (RecordId × D)} (hes' : ∀ e, e ∈ es' ↔ e = m.create.entry row.2 row.1 ∨ e ∈ es) :
    Fresh m es' rows ↔ (∀ row' ∈ rows, ¬ SameKey m row row') ∧ Fresh m es rows := by
  constructor
  · exact fun h => ⟨h _ ((hes' _).mpr (Or.inl rfl)), fun e he => h e ((hes' e).mpr (Or.inr he))⟩
  · rintro ⟨hrow, hes⟩ e he
    rcases (hes' e).mp he with rfl | he
    · exact hrow
    · exact hes e he

/-- **The loop.**  It enters the records the scan reaches, or stops at one of them. -/
theorem fillNewIndex_spec : ∀ {rows : List (RecordId × D)} {n : Nat} {i : TableIndex D U}
    {es : List (IndexKey U × RecordId)}, SameDef m.create i → i.Holds es →
    ((Enterable env m n (reached env n rows) ∧ Fresh m es (reached env n rows)) ∧
      ∃ i' es', SameDef m.create i' ∧ i'.Holds es' ∧
        (∀ e, e ∈ es' ↔ e ∈ es ∨ ∃ row ∈ reached env n rows, e = m.create.entry row.2 row.1) ∧
        fillNewIndex env n i rows = .ok (.ofScan (scanError env n rows), i')) ∨
    (¬ (Enterable env m n (reached env n rows) ∧ Fresh m es (reached env n rows)) ∧
      ∃ rc i', fillNewIndex env n i rows = .ok (.insertFailed rc, i'))
  | [], n, i, es, hdef, h => by
    refine Or.inl ⟨⟨enterable_nil, fun _ _ _ h => absurd h List.not_mem_nil⟩, i, es, hdef, h, ?_, ?_⟩
    · intro e
      simp [reached]
    · rw [fillNewIndex, scanError]
      cases env.next n <;> rfl
  | row :: rows, n, i, es, hdef, h => by
    rw [fillNewIndex, reached, scanError]
    cases hnext : env.next n with
    | some rc =>
      refine Or.inl ⟨⟨enterable_nil, fun _ _ _ h => absurd h List.not_mem_nil⟩, i, es, hdef, h, ?_, rfl⟩
      intro e
      simp
    | none =>
      dsimp only
      cases hpages : env.insertEntry n with
      | some rc =>
        refine Or.inr ⟨fun hgood => ?_, rc, i, rfl⟩
        obtain ⟨hn, -⟩ := enterable_cons_iff.mp hgood.1
        cases hpages.symm.trans hn
      | none =>
        dsimp only
        rcases h.insertEntry row.2 row.1 with ⟨hrej, hrun⟩ | ⟨i₁, ⟨hdef₁, es₀, es₁, h₀, h₁, hnot, hes₁⟩, hrun⟩
        · -- the tree has an equal key
          refine Or.inr ⟨fun hgood => ?_, .recordDuplicateKey, i, ?_⟩
          · obtain ⟨e, he, heq⟩ := (h.rejects_iff _ _).mp hrej
            rw [hdef.cmp, hdef.entry] at heq
            exact hgood.2 e he row (by simp) heq
          · rw [bind_ok _ hrun]
            rfl
        · obtain rfl := h.unique h₀
          rw [hdef.entry] at hes₁
          have hrow : ∀ e ∈ es, m.create.cmp e.1 (m.create.entry row.2 row.1).1 ≠ .eq := by
            intro e he heq
            apply hnot
            rw [h.rejects_iff, hdef.cmp, hdef.entry]
            exact ⟨e, he, heq⟩
          -- what is left to enter is as it would be with the entry of `row` in the tree
          have hrest : (Enterable env m n (row :: reached env (n + 1) rows) ∧
              Fresh m es (row :: reached env (n + 1) rows)) ↔
              Enterable env m (n + 1) (reached env (n + 1) rows) ∧ Fresh m es₁ (reached env (n + 1) rows) := by
            rw [enterable_cons_iff, fresh_cons_iff, fresh_insert_iff hes₁]
            tauto
          rw [hrest, bind_ok _ hrun]
          rcases fillNewIndex_spec (hdef.trans hdef₁) h₁ with ⟨hgood, i', es', hdef', h', hes', hok⟩ | hbad
          · refine Or.inl ⟨hgood, i', es', hdef', h', fun e => ?_, hok⟩
            rw [hes', hes₁, List.exists_mem_cons_iff]
            tauto
          · exact Or.inr hbad

end Loop

/-! ## All or nothing -/

/-- The scan gives what the transaction sees. -/
theorem mem_scan {trx : Option Int} {file : RecordFile D} {row : RecordId × D} :
    row ∈ scan trx file ↔ ∃ r, file.row row.1 = some r ∧ Sees trx r ∧ r.data = row.2 := by
  rw [scan, List.mem_filterMap]
  constructor
  · rintro ⟨rid, -, hrow⟩
    obtain ⟨r, hr, hrow⟩ := Option.bind_eq_some_iff.mp hrow
    split at hrow
    · next hsees =>
      obtain rfl := Option.some.inj hrow
      exact ⟨r, hr, hsees, rfl⟩
    · cases hrow
  · rintro ⟨r, hr, hsees, hdata⟩
    refine ⟨row.1, (file.mem_rids _).mpr (by rw [hr]; rfl), ?_⟩
    rw [hr, Option.bind_some, if_pos hsees, hdata]

theorem reached_eq {env : Environment} : ∀ {rows : List (RecordId × D)} {n : Nat},
    scanError env n rows = none → reached env n rows = rows
  | [], _, _ => rfl
  | row :: rows, n, h => by
    rw [scanError] at h
    rw [reached]
    cases hnext : env.next n with
    | some rc =>
      rw [hnext] at h
      cases h
    | none =>
      rw [hnext] at h
      dsimp only at h ⊢
      rw [reached_eq h]

/-- An index of the records that the transaction sees lists the file, exactly if it sees all of them. -/
theorem lists_iff {m : Db.IndexMeta D U} {trx : Option Int} {file : RecordFile D} {i : TableIndex D U}
    {es : List (IndexKey U × RecordId)} (hdef : SameDef m.create i) (h : i.Holds es)
    (hes : ∀ e, e ∈ es ↔ ∃ row ∈ scan trx file, e = m.create.entry row.2 row.1) :
    i.Lists file ↔ ∀ rid r, file.row rid = some r → Sees trx r := by
  constructor
  · rintro ⟨es', h', -, hmem⟩ rid r hr
    obtain rfl := h.unique h'
    obtain ⟨row, hrow, heq⟩ := (hes _).mp ((hmem (i.entry r.data rid)).mpr ⟨rid, r, hr, rfl⟩)
    obtain ⟨r', hr', hsees, -⟩ := mem_scan.mp hrow
    have hrid : rid = row.1 := congrArg Prod.snd heq
    rw [← hrid, hr] at hr'
    obtain rfl := Option.some.inj hr'
    exact hsees
  · intro hall
    refine ⟨es, h, h.nodup, fun e => ?_⟩
    rw [hes]
    constructor
    · rintro ⟨row, hrow, rfl⟩
      obtain ⟨r, hr, -, hdata⟩ := mem_scan.mp hrow
      exact ⟨row.1, r, hr, by rw [hdef.entry, hdata]⟩
    · rintro ⟨rid, r, hr, rfl⟩
      exact ⟨(rid, r.data), mem_scan.mpr ⟨r, hr, hall rid r hr, rfl⟩, hdef.entry _ _⟩

/-- The meta data of an index are refused for blank names only. -/
theorem init_eq_ok_iff {indexName : String} {fieldsMeta : List FieldMeta} {unique : Bool} :
    (∃ newIndexMeta, Schema.IndexMeta.init indexName fieldsMeta unique = .ok newIndexMeta) ↔
      isBlank indexName = false ∧ ∀ f ∈ fieldsMeta, isBlank f.name = false := by
  rw [Schema.IndexMeta.init]
  cases isBlank indexName with
  | true => simp
  | false =>
    cases hany : fieldsMeta.any fun field => isBlank field.name with
    | true =>
      obtain ⟨f, hf, hblank⟩ := List.any_eq_true.mp hany
      simp only [Bool.false_eq_true, if_false, if_true, true_and]
      constructor
      · rintro ⟨_, h⟩
        cases h
      · intro h
        cases hblank.symm.trans (h f hf)
    | false =>
      refine iff_of_true ⟨_, rfl⟩ ⟨rfl, fun f hf => ?_⟩
      simpa using List.any_eq_false.mp hany f hf

section CreateIndex

variable (env : Environment) (keys : List FieldMeta → Db.IndexMeta D U) (s : OpenTable D U)
  (trx : Option Int) (fieldsMeta : List FieldMeta) (indexName : String) (unique : Bool)

/-- An error leaves everything as it was, and success an index of all stored records. -/
def AllOrNothing : Prop :=
  ∃ result s', s.createIndex env keys trx fieldsMeta indexName unique = .ok (result, s') ∧
    (result ≠ none → s' = s) ∧
    (result = none → ∃ index, s'.table = { s.table with indexes := s.table.indexes ++ [index] } ∧
      SameDef (keyMeta keys fieldsMeta unique).create index ∧ index.Lists s.table.file)

/-- The call stops before the file is created; or the file is created, all records that the scan reaches are
    entered, and either the scan fails and is undone, or nothing fails and the transaction sees every record. -/
def NothingToUndo : Prop :=
  isBlank indexName = true ∨ (∃ f ∈ fieldsMeta, isBlank f.name = true) ∨
  (s.files (s.indexFile indexName)).isSome = true ∨ env.createFile = .refused ∨
  (CreatesTree env s (s.indexFile indexName) ∧
    Enterable env (keyMeta keys fieldsMeta unique) 0 (reached env 0 (scan trx s.table.file)) ∧
    ((scanError env 0 (scan trx s.table.file) ≠ none ∧ env.closeFile = true ∧ env.unlink = true) ∨
     (scanError env 0 (scan trx s.table.file) = none ∧
      env.openTmp = true ∧ env.serialize = true ∧ env.rename = true ∧
      ∀ rid r, s.table.file.row rid = some r → Sees trx r)))

variable {env keys s trx fieldsMeta indexName unique}

/-- What the call has to leave behind, for each of its two ends. -/
theorem allOrNothing_of_run {result : Option Failure} {s' : OpenTable D U}
    (h : s.createIndex env keys trx fieldsMeta indexName unique = .ok (result, s')) :
    AllOrNothing env keys s trx fieldsMeta indexName unique ↔ (result ≠ none → s' = s) ∧
      (result = none → ∃ index, s'.table = { s.table with indexes := s.table.indexes ++ [index] } ∧
        SameDef (keyMeta keys fieldsMeta unique).create index ∧ index.Lists s.table.file) := by
  constructor
  · rintro ⟨result', s'', h', hboth⟩
    obtain ⟨rfl, rfl⟩ := Prod.mk.inj (Except.ok.inj (h.symm.trans h'))
    exact hboth
  · exact fun hboth => ⟨result, s', h, hboth⟩

theorem allOrNothing_of_failed {rc : Failure} {s' : OpenTable D U}
    (h : s.createIndex env keys trx fieldsMeta indexName unique = .ok (some rc, s')) :
    AllOrNothing env keys s trx fieldsMeta indexName unique ↔ s' = s := by
  rw [allOrNothing_of_run h]
  constructor
  · exact fun hboth => hboth.1 (Option.some_ne_none rc)
  · exact fun heq => ⟨fun _ => heq, fun h => absurd h (Option.some_ne_none rc)⟩

/-- The call, where the first step does not succeed. -/
theorem createIndex_of_failed {newIndexMeta : Schema.IndexMeta}
    (hinit : Schema.IndexMeta.init indexName fieldsMeta unique = .ok newIndexMeta) {rc : Failure}
    {s' : OpenTable D U} (hrun : s.createTree env (s.indexFile indexName) = (some rc, s')) :
    s.createIndex env keys trx fieldsMeta indexName unique = .ok (some rc, s') := by
  have hname := (init_eq_ok_iff.mp ⟨newIndexMeta, hinit⟩).1
  rw [OpenTable.createIndex, hname, if_neg Bool.false_ne_true, hinit]
  dsimp only
  rw [hrun]

/-- The call up to the loop. -/
theorem createIndex_of_created {newIndexMeta : Schema.IndexMeta}
    (hinit : Schema.IndexMeta.init indexName fieldsMeta unique = .ok newIndexMeta)
    (hrun : s.createTree env (s.indexFile indexName) = (none, s.created (s.indexFile indexName)))
    {filled : Filled} {index : TableIndex D U}
    (hfill : fillNewIndex env 0 (keyMeta keys fieldsMeta unique).create (scan trx s.table.file) =
      .ok (filled, index)) :
    s.createIndex env keys trx fieldsMeta indexName unique =
      .ok ((s.created (s.indexFile indexName)).finishIndex env (s.indexFile indexName) newIndexMeta
        (filled, index)) := by
  have hname := (init_eq_ok_iff.mp ⟨newIndexMeta, hinit⟩).1
  rw [OpenTable.createIndex, hname, if_neg Bool.false_ne_true, hinit]
  dsimp only
  rw [hrun]
  dsimp only
  rw [show (s.created (s.indexFile indexName)).table.file = s.table.file from rfl, hfill]
  rfl

/-- The call once the file, its pool and the header page are there. -/
theorem allOrNothing_of_created {newIndexMeta : Schema.IndexMeta}
    (hordered : Std.TransCmp (keys fieldsMeta).attrCmp)
    (hinit : Schema.IndexMeta.init indexName fieldsMeta unique = .ok newIndexMeta)
    (h : CreatesTree env s (s.indexFile indexName))
    (hrun : s.createTree env (s.indexFile indexName) = (none, s.created (s.indexFile indexName))) :
    AllOrNothing env keys s trx fieldsMeta indexName unique ↔
      Enterable env (keyMeta keys fieldsMeta unique) 0 (reached env 0 (scan trx s.table.file)) ∧
      ((scanError env 0 (scan trx s.table.file) ≠ none ∧ env.closeFile = true ∧ env.unlink = true) ∨
       (scanError env 0 (scan trx s.table.file) = none ∧
        env.openTmp = true ∧ env.serialize = true ∧ env.rename = true ∧
        ∀ rid r, s.table.file.row rid = some r → Sees trx r)) := by
  have hempty : Fresh (keyMeta keys fieldsMeta unique) [] (reached env 0 (scan trx s.table.file)) :=
    fun e he => absurd he List.not_mem_nil
  -- the rows are entered one by one, and either all of them fit or one of them is refused
  rcases @fillNewIndex_spec D U env (keyMeta keys fieldsMeta unique) (scan trx s.table.file) 0 _ []
      (.refl _) (IndexMeta.create_holds hordered) with
    ⟨⟨hgood, -⟩, index, es, hdef, hindex, hes, hfill⟩ | ⟨hbad, rc, index, hfill⟩
  · rw [and_iff_right hgood]
    have hcall := createIndex_of_created hinit hrun hfill
    -- the scan may fail after the rows it gave; then the new index is dropped again
    cases hscan : scanError env 0 (scan trx s.table.file) with
    | some rc =>
      rw [hscan] at hcall
      rw [allOrNothing_of_failed hcall, OpenTable.dropIndex_created h]
      simp
    | none =>
      rw [hscan, Filled.ofScan] at hcall
      rw [reached_eq hscan] at hes
      have hlists := @lists_iff D U _ trx s.table.file index es hdef hindex fun e => (hes e).trans (by simp)
      obtain ⟨htable, hnone⟩ := @OpenTable.finishIndex_all D U env (s.created (s.indexFile indexName))
        (s.indexFile indexName) newIndexMeta index
      generalize OpenTable.finishIndex env (s.created (s.indexFile indexName)) (s.indexFile indexName) newIndexMeta
        (.all, index) = out at hcall htable hnone
      rw [allOrNothing_of_run hcall]
      -- success means that the meta file was replaced and that the scan has seen every row
      constructor
      · rintro ⟨herror, hsuccess⟩
        refine Or.inr ⟨rfl, ?_⟩
        by_cases hdone : out.1 = none
        · obtain ⟨index', htable', -, hall⟩ := hsuccess hdone
          obtain rfl := addedIndex_inj (htable.symm.trans htable')
          obtain ⟨ho, hs, hr⟩ := hnone.mp hdone
          exact ⟨ho, hs, hr, hlists.mp hall⟩
        · -- the index is in `indexes_` all the same
          rw [herror hdone] at htable
          exact absurd htable (addedIndex_ne index)
      · rintro (⟨hsome, -⟩ | ⟨-, ho, hs, hr, hall⟩)
        · exact absurd rfl hsome
        · have hdone := hnone.mpr ⟨ho, hs, hr⟩
          exact ⟨fun hfailed => absurd hdone hfailed, fun _ => ⟨index, htable, hdef, hlists.mpr hall⟩⟩
  -- a row that cannot be entered leaves the index file behind
  · refine iff_of_false ?_ fun h' => hbad ⟨h'.1, hempty⟩
    rw [allOrNothing_of_failed (createIndex_of_created hinit hrun hfill)]
    exact OpenTable.created_ne h.absent

end CreateIndex

/-! ## A duplicate key -/

/-- Every call succeeds. -/
def Environment.quiet : Environment where
  createFile := .done
  openFile := none
  createTree := none
  next _ := none
  insertEntry _ := none
  closeFile := true
  unlink := true
  openTmp := true
  serialize := true
  rename := true

def sevenFirst : RecordId := ⟨⟨1, 0⟩, range_one, range_zero⟩

def sevenSecond : RecordId := ⟨⟨1, 1⟩, range_one, range_one⟩

/-- A table without indexes that holds 7 and a second row. -/
def twoRows (second : Int) : OpenTable Int Int where
  baseDir := "db"
  table := ⟨(RecordFile.empty.bind sevenFirst ⟨0, 0, 7⟩).bind sevenSecond ⟨0, 0, second⟩, []⟩
  tableMeta := ⟨0, "t", [], [⟨"a", .ints, 0, 4, true, 0, false⟩], [], 0, 4⟩
  files _ := none
  bufferPools _ := false

end Miniob.Db
