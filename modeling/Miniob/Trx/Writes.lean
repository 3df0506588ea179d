/-
  The log leads to the stored records.

  `LeadsTo` says of the entries that an operation on a table writes that their replay leads from the
  pages before the operation to the pages after it.  It is proved for each operation that the
  steps of the machine are made of, and composes; `LoggedDatabase.applyLog_log` is the result: the
  whole log leads from empty pages to the stored ones.
-/
import Miniob.Trx.Log

namespace Miniob.Trx

open Miniob.Common Miniob.Db Miniob.Storage

variable {D U : Type}

/-! ## Files -/

/-- The rows of the file are in slots that its pages have. -/
def Fits (capacity : Nat) (f : RecordFile D) : Prop :=
  ∀ rid r, f.row rid = some r → rid.slotNum < capacity

/-- A record entry is about the table of its page. -/
theorem LogEntry.table_of_page {e : LogEntry D} {p : PageId} (h : e.page = some p) :
    e.table = some p.1 := by
  cases e with
  | insert l r | delete l | update l r =>
    obtain rfl := Option.some.inj h
    rfl
  | trx => cases h

/-- The entries are about pages of the table and lead from one file of it to another. -/
structure LeadsTo (capacity : TableId → Nat) (tid : TableId) (es : List (LogEntry D))
    (f f' : RecordFile D) : Prop where
  page : ∀ e ∈ es, ∃ pageNum, e.page = some (tid, pageNum)
  leads : Fits (capacity tid) f → Fits (capacity tid) f' ∧
    ∀ pages : PageId → RecordPage D, (∀ pageNum, pages (tid, pageNum) = f.page pageNum) →
      ∃ pages', (pageLog capacity).applyLog es pages = .ok pages' ∧
        (∀ pageNum, pages' (tid, pageNum) = f'.page pageNum) ∧
        ∀ p, p.1 ≠ tid → pages' p = pages p

section LeadsTo

variable {capacity : TableId → Nat} {tid : TableId} {f f' f'' : RecordFile D}
  {es es' : List (LogEntry D)} {rid : RecordId} {r : Row D}

theorem LeadsTo.refl : LeadsTo capacity tid [] f f where
  page := List.forall_mem_nil _
  leads hfits := ⟨hfits, fun pages hpages => ⟨pages, rfl, hpages, fun _ _ => rfl⟩⟩

/-- Two logs, one behind the other. -/
theorem LeadsTo.trans (h : LeadsTo capacity tid es f f') (h' : LeadsTo capacity tid es' f' f'') :
    LeadsTo capacity tid (es ++ es') f f'' := by
  refine ⟨List.forall_mem_append.mpr ⟨h.page, h'.page⟩, fun hfits => ?_⟩
  obtain ⟨hfits₁, h⟩ := h.leads hfits
  obtain ⟨hfits₂, h'⟩ := h'.leads hfits₁
  refine ⟨hfits₂, fun pages hpages => ?_⟩
  obtain ⟨pages₁, happly, hpages₁, hother⟩ := h pages hpages
  obtain ⟨pages₂, happly', hpages₂, hother'⟩ := h' pages₁ hpages₁
  exact ⟨pages₂, (PageLog.applyLog_append happly).trans happly', hpages₂,
    fun p hp => (hother' p hp).trans (hother p hp)⟩

/-- One entry that changes one slot. -/
theorem LeadsTo.entry {e : LogEntry D} {r' : Option (Row D)} (hpage : e.page = some (pageOf (tid, rid)))
    (hfits : Fits (capacity tid) f → ∀ r, r' = some r → rid.slotNum < capacity tid)
    (hreplay : Fits (capacity tid) f →
      e.replay capacity (f.page rid.pageNum) = .ok ((f.page rid.pageNum).set rid.slotNum r'))
    (hf' : ∀ rid', f'.row rid' = if rid' = rid then r' else f.row rid') :
    LeadsTo capacity tid [e] f f' := by
  refine ⟨fun e' he' => ⟨rid.pageNum, List.mem_singleton.mp he' ▸ hpage⟩, fun hf => ?_⟩
  constructor
  · intro rid' r hr
    rw [hf'] at hr
    split at hr
    · rename_i heq
      subst heq
      exact hfits hf r hr
    · exact hf rid' r hr
  · intro pages hpages
    refine ⟨PageLog.setPage pages (pageOf (tid, rid)) ((f.page rid.pageNum).set rid.slotNum r'),
      ?_, ?_, ?_⟩
    · have happly : (pageLog capacity).applyEntry e pages = .ok
          (PageLog.setPage pages (pageOf (tid, rid)) ((f.page rid.pageNum).set rid.slotNum r')) := by
        have hpage' : (pageLog capacity).page e = some (pageOf (tid, rid)) := hpage
        unfold PageLog.applyEntry
        rw [hpage']
        refine bind_ok _ ?_
        show e.replay capacity (pages (tid, rid.pageNum)) = _
        rw [hpages]
        exact hreplay hf
      exact bind_ok _ happly
    · intro pageNum
      rw [RecordFile.page_set hf']
      by_cases hp : pageNum = rid.pageNum
      · rw [if_pos hp, hp]
        exact PageLog.setPage_self ..
      · rw [if_neg hp]
        exact (PageLog.setPage_of_ne _ _ fun heq => hp (Prod.mk.inj heq).2).trans (hpages pageNum)
    · intro p hp
      exact PageLog.setPage_of_ne _ _ fun heq => hp (congrArg Prod.fst heq)

theorem LeadsTo.insert (hfirst : (f.page rid.pageNum).firstFree (capacity tid) = some rid.slotNum) :
    LeadsTo capacity tid [.insert (tid, rid) r] f (f.bind rid r) := by
  refine .entry rfl (fun _ _ _ => RecordPage.firstFree_lt hfirst) (fun _ => ?_)
    (RecordFile.bind_row f rid · r)
  unfold LogEntry.replay
  dsimp only
  rw [hfirst]

/-- A deletion is logged as one. -/
theorem LeadsTo.delete (hr : f.row rid = some r) :
    LeadsTo capacity tid [.delete (tid, rid)] f (f.unbind rid) := by
  refine .entry rfl ?_ (fun _ => ?_) (RecordFile.unbind_row f rid ·)
  · intro _ r h
    cases h
  unfold LogEntry.replay
  dsimp only
  rw [RecordFile.page_slot, hr]

theorem LeadsTo.update {r' : Row D} (hr : f.row rid = some r) :
    LeadsTo capacity tid [.update (tid, rid) r'] f (f.bind rid r') := by
  refine .entry rfl (fun hf _ _ => hf rid r hr) (fun hf => ?_) (RecordFile.bind_row f rid · r')
  unfold LogEntry.replay
  dsimp only
  rw [if_neg (Int.not_le.mpr (hf rid r hr)), RecordFile.page_slot, hr]

/-! ### Statements on one table -/

variable {t t' : Table D U} {rc : RC} {p : Placement D}

/-- An insertion into the table, with its log; taking it back is logged as well. -/
theorem insertRecord_leadsTo (hfit : p.FirstFit (capacity tid)) {n : Nat} {rid' : Option RecordId}
    (h : t.insertRecord (p.place n) r = .ok (rc, rid', t')) :
    LeadsTo capacity tid (insertRecordLog tid t (p.place n) r) t.file t'.file := by
  unfold Table.insertRecord at h
  unfold insertRecordLog
  cases hplace : p.place n t.file with
  | error rc' =>
    rw [hplace] at h
    obtain ⟨-, h'⟩ := Prod.mk.inj (Except.ok.inj h)
    obtain ⟨-, rfl⟩ := Prod.mk.inj h'
    exact .refl
  | ok rid =>
    rw [hplace] at h
    have hinsert : LeadsTo capacity tid [.insert (tid, rid) r] t.file (t.file.bind rid r) :=
      .insert (hfit n t.file rid hplace)
    obtain ⟨⟨rc', indexes⟩, hentries, h⟩ := ok_of_bind h
    dsimp only at h ⊢
    rw [hentries]
    by_cases hrc : rc' = .success
    · subst hrc
      rw [if_neg (fun hne => hne rfl)] at h
      obtain ⟨-, h'⟩ := Prod.mk.inj (Except.ok.inj h)
      obtain ⟨-, rfl⟩ := Prod.mk.inj h'
      exact hinsert
    · rw [if_pos hrc] at h
      obtain ⟨⟨rc2, indexes'⟩, -, h⟩ := ok_of_bind h
      obtain ⟨-, h'⟩ := Prod.mk.inj (Except.ok.inj h)
      obtain ⟨-, rfl⟩ := Prod.mk.inj h'
      have hboth := hinsert.trans (.delete (RecordFile.bind_row_self t.file rid r))
      cases rc' with
      | success => exact absurd rfl hrc
      | _ => exact hboth

/-- A deletion from the table, with its log. -/
theorem deleteRecord_leadsTo {record : D} (h : t.deleteRecord record rid = .ok (rc, t')) :
    LeadsTo capacity tid (deleteRecordLog tid t record rid) t.file t'.file := by
  unfold deleteRecordLog
  rw [h]
  rcases Table.deleteRecord_file h with ⟨rfl, -, hf⟩ | ⟨rfl, ⟨r, hr⟩, hf⟩
  · rw [hf]
    exact .refl
  · rw [hf]
    exact .delete hr

/-- Row by row. -/
theorem insertRows_leadsTo (hfit : p.FirstFit (capacity tid)) :
    ∀ {rows : List (Row D)} {n m : Nat} {t t' : Table D U} {rc : RC},
      insertRows p n t rows = .ok (rc, m, t') →
        LeadsTo capacity tid (insertRowsLog tid p n t rows) t.file t'.file
  | [], n, m, t, t', rc, h => by
    obtain ⟨-, h'⟩ := Prod.mk.inj (Except.ok.inj h)
    obtain ⟨-, rfl⟩ := Prod.mk.inj h'
    exact .refl
  | r :: rows, n, m, t, t', rc, h => by
    unfold insertRows at h
    obtain ⟨⟨rc₁, rid, t₁⟩, hins, h⟩ := ok_of_bind h
    unfold insertRowsLog
    refine (insertRecord_leadsTo hfit hins).trans ?_
    rw [hins]
    dsimp only at h
    split at h
    · rename_i hrc
      obtain ⟨-, h'⟩ := Prod.mk.inj (Except.ok.inj h)
      obtain ⟨-, rfl⟩ := Prod.mk.inj h'
      cases rc₁ with
      | success => exact absurd rfl hrc
      | _ => exact .refl
    · rename_i hrc
      rw [not_not.mp hrc]
      exact insertRows_leadsTo hfit h

/-- Row by row. -/
theorem deleteRows_leadsTo : ∀ {rows : List (RecordId × Row D)} {t t' : Table D U} {rc : RC},
    deleteRows t rows = .ok (rc, t') →
      LeadsTo capacity tid (deleteRowsLog tid t rows) t.file t'.file
  | [], t, t', rc, h => by
    obtain ⟨-, rfl⟩ := Prod.mk.inj (Except.ok.inj h)
    exact .refl
  | (rid, r) :: rows, t, t', rc, h => by
    unfold deleteRows at h
    obtain ⟨⟨rc₁, t₁⟩, hdel, h⟩ := ok_of_bind h
    unfold deleteRowsLog
    refine (deleteRecord_leadsTo hdel).trans ?_
    rw [hdel]
    dsimp only at h
    split at h
    · rename_i hrc
      obtain ⟨-, rfl⟩ := Prod.mk.inj (Except.ok.inj h)
      cases rc₁ with
      | success => exact absurd rfl hrc
      | _ => exact .refl
    · rename_i hrc
      rw [not_not.mp hrc]
      exact deleteRows_leadsTo h

/-- The first loop of UPDATE; what it has deleted it puts back when it fails. -/
theorem deleteOldRows_leadsTo (hfit : p.FirstFit (capacity tid)) :
    ∀ {rows : List (RecordId × Row D)} {n m : Nat} {t t' : Table D U} {done : List (Row D)} {rc : RC},
      deleteOldRows p n t done rows = .ok (rc, m, t') →
        LeadsTo capacity tid (deleteOldRowsLog tid p n t done rows) t.file t'.file
  | [], n, m, t, t', done, rc, h => by
    obtain ⟨-, h'⟩ := Prod.mk.inj (Except.ok.inj h)
    obtain ⟨-, rfl⟩ := Prod.mk.inj h'
    exact .refl
  | (rid, r) :: rows, n, m, t, t', done, rc, h => by
    unfold deleteOldRows at h
    obtain ⟨⟨rc₁, t₁⟩, hdel, h⟩ := ok_of_bind h
    unfold deleteOldRowsLog
    refine (deleteRecord_leadsTo hdel).trans ?_
    rw [hdel]
    dsimp only at h
    split at h
    · rename_i hrc
      obtain ⟨⟨rc₂, m', t₂⟩, hins, h⟩ := ok_of_bind h
      obtain ⟨-, h'⟩ := Prod.mk.inj (Except.ok.inj h)
      obtain ⟨-, rfl⟩ := Prod.mk.inj h'
      have hback := insertRows_leadsTo hfit hins
      cases rc₁ with
      | success => exact absurd rfl hrc
      | _ => exact hback
    · rename_i hrc
      rw [not_not.mp hrc]
      exact deleteOldRows_leadsTo hfit h

/-- The second loop. -/
theorem insertNewRows_leadsTo (hfit : p.FirstFit (capacity tid)) :
    ∀ {rows : List (Row D)} {n m : Nat} {t t' : Table D U} {done done' : List (RecordId × Row D)}
      {rc : RC}, insertNewRows p n t done rows = .ok (rc, m, done', t') →
        LeadsTo capacity tid (insertNewRowsLog tid p n t rows) t.file t'.file
  | [], n, m, t, t', done, done', rc, h => by
    obtain ⟨-, h'⟩ := Prod.mk.inj (Except.ok.inj h)
    obtain ⟨-, h'⟩ := Prod.mk.inj h'
    obtain ⟨-, rfl⟩ := Prod.mk.inj h'
    exact .refl
  | r :: rows, n, m, t, t', done, done', rc, h => by
    unfold insertNewRows at h
    obtain ⟨⟨rc₁, rid, t₁⟩, hins, h⟩ := ok_of_bind h
    unfold insertNewRowsLog
    refine (insertRecord_leadsTo hfit hins).trans ?_
    rw [hins]
    dsimp only at h
    split at h
    · exact insertNewRows_leadsTo hfit h
    · rename_i hne
      obtain ⟨-, h'⟩ := Prod.mk.inj (Except.ok.inj h)
      obtain ⟨-, h'⟩ := Prod.mk.inj h'
      obtain ⟨-, rfl⟩ := Prod.mk.inj h'
      split
      · rename_i heq
        obtain ⟨rfl, h'⟩ := Prod.mk.inj (Except.ok.inj heq)
        obtain ⟨rfl, -⟩ := Prod.mk.inj h'
        exact absurd rfl (hne _ rfl)
      · exact .refl

/-- The whole statement: its loops, and what they take back. -/
theorem openUpdate_leadsTo (hfit : p.FirstFit (capacity tid)) {T : Int} {stmt : UpdateStmt D}
    (h : openUpdate t T stmt p = .ok (rc, t')) :
    LeadsTo capacity tid (openUpdateLog tid t T stmt p) t.file t'.file := by
  -- along the branches of `open`, with the log of each part behind that of the one before
  unfold openUpdate at h
  unfold openUpdateLog UpdateStmt.selected
  rcases hscan : scanRecords T t.file stmt.select (stmt.access.rids t.file) with ⟨rc₀, oldRecords⟩
  rw [hscan] at h
  dsimp only at h ⊢
  -- the scan has failed: nothing is written
  split at h
  · rename_i hrc
    obtain ⟨-, rfl⟩ := Prod.mk.inj (Except.ok.inj h)
    cases rc₀ with
    | recordEof => exact absurd rfl hrc
    | _ => exact .refl
  · rename_i hrc
    obtain rfl := not_not.mp hrc
    obtain ⟨⟨rc₁, n, t₁⟩, hdel, h⟩ := ok_of_bind h
    refine (deleteOldRows_leadsTo hfit hdel).trans ?_
    rw [hdel]
    dsimp only at h ⊢
    -- the first loop has failed, and taken back what it did
    split at h
    · rename_i hrc₁
      obtain ⟨-, rfl⟩ := Prod.mk.inj (Except.ok.inj h)
      cases rc₁ with
      | success => exact absurd rfl hrc₁
      | _ => exact .refl
    · rename_i hrc₁
      obtain rfl := not_not.mp hrc₁
      obtain ⟨⟨rc₂, m, done, t₂⟩, hins, h⟩ := ok_of_bind h
      refine (insertNewRows_leadsTo hfit hins).trans ?_
      rw [hins]
      dsimp only at h ⊢
      -- the second loop has succeeded
      split at h
      · rename_i hrc₂
        obtain ⟨-, rfl⟩ := Prod.mk.inj (Except.ok.inj h)
        subst hrc₂
        exact .refl
      -- it has failed: the new rows are deleted, and if that worked the old ones are put back
      · rename_i hrc₂
        obtain ⟨⟨rc₃, t₃⟩, hundo, h⟩ := ok_of_bind h
        have hdone : LeadsTo capacity tid (deleteRowsLog tid t₂ done) t₂.file t₃.file :=
          deleteRows_leadsTo hundo
        have hrest : LeadsTo capacity tid (if rc₃ = .success then
            insertRowsLog tid p m t₃ (oldRecords.map Prod.snd) else []) t₃.file t'.file := by
          dsimp only at h
          split at h
          · rename_i hrc₃
            obtain ⟨-, rfl⟩ := Prod.mk.inj (Except.ok.inj h)
            rw [if_neg hrc₃]
            exact .refl
          · rename_i hrc₃
            obtain rfl := not_not.mp hrc₃
            obtain ⟨⟨rc₄, m', t₄⟩, hback, h⟩ := ok_of_bind h
            have hlast := insertRows_leadsTo hfit hback
            rw [if_pos rfl]
            dsimp only at h
            split at h
            · obtain ⟨-, rfl⟩ := Prod.mk.inj (Except.ok.inj h)
              exact hlast
            · obtain ⟨-, rfl⟩ := Prod.mk.inj (Except.ok.inj h)
              exact hlast
        have hall := hdone.trans hrest
        cases rc₂ with
        | success => exact absurd rfl hrc₂
        | _ =>
          dsimp only
          rw [hundo]
          cases rc₃ <;> exact hall

end LeadsTo

/-! ## Databases -/

/-- The pages of the tables. -/
def Database.pages (db : Database D U) : PageId → RecordPage D := fun p =>
  match db.tables p.1 with
  | none => fun _ => none
  | some t => t.file.page p.2

/-- The rows of the database are in slots that the pages have. -/
def Database.Fits (capacity : TableId → Nat) (db : Database D U) : Prop :=
  ∀ tid t, db.tables tid = some t → Trx.Fits (capacity tid) t.file

/-- New rows go to the first free slots. -/
def Action.FirstFit (capacity : TableId → Nat) : Action D U → Prop
  | .insertRecord _ tid _ p => p.FirstFit (capacity tid)
  | .update _ tid _ p => p.FirstFit (capacity tid)
  | .insertMadeRecord tid _ p => p.FirstFit (capacity tid)
  | _ => True

section Database

variable {capacity : TableId → Nat} {db db' : Database D U} {es : List (LogEntry D)}

theorem Database.pages_table {tid : TableId} {t : Table D U} (h : db.tables tid = some t)
    (pageNum : PageNum) : db.pages (tid, pageNum) = t.file.page pageNum := by
  unfold Database.pages
  rw [h]

/-- The entries are about tables of the database and lead from one database to another. -/
structure Database.LeadsTo (capacity : TableId → Nat) (es : List (LogEntry D))
    (db db' : Database D U) : Prop where
  tables : ∀ tid, (db.tables tid).isSome → (db'.tables tid).isSome
  entries : ∀ e ∈ es, ∀ tid, e.table = some tid → (db'.tables tid).isSome
  leads : db.Fits capacity → db'.Fits capacity ∧
    (pageLog capacity).applyLog es db.pages = .ok db'.pages

/-- What writes nothing logs nothing. -/
theorem Database.LeadsTo.same (h : db'.tables = db.tables) : db.LeadsTo capacity [] db' where
  tables tid htid := by
    rw [h]
    exact htid
  entries := List.forall_mem_nil _
  leads hfits := by
    unfold Database.Fits Database.pages
    rw [h]
    exact ⟨hfits, rfl⟩

/-- Entries of a transaction change no page. -/
theorem Database.LeadsTo.trx {T : Int} {operation : MvccTrxLogOperation}
    (h : db.LeadsTo capacity es db') (htable : ∀ tid,
      (LogEntry.trx T operation : LogEntry D).table = some tid → (db'.tables tid).isSome) :
    db.LeadsTo capacity (es ++ [.trx T operation]) db' := by
  refine ⟨h.tables, List.forall_mem_append.mpr ⟨h.entries, ?_⟩, fun hfits => ?_⟩
  · intro e he
    obtain rfl := List.mem_singleton.mp he
    exact htable
  · obtain ⟨hfits', happly⟩ := h.leads hfits
    exact ⟨hfits', (PageLog.applyLog_append happly).trans rfl⟩

/-- One table has changed. -/
theorem Database.LeadsTo.table {tid : TableId} {t t' : Table D U} (ht : db.tables tid = some t)
    (h : Trx.LeadsTo capacity tid es t.file t'.file)
    (htables : db'.tables = (db.setTable tid t').tables) : db.LeadsTo capacity es db' := by
  -- no table disappears
  have hsome : ∀ tid', (db.tables tid').isSome → (db'.tables tid').isSome := by
    intro tid' htid'
    rw [htables]
    show (if tid' = tid then some t' else db.tables tid').isSome
    split
    · rfl
    · exact htid'
  refine ⟨hsome, fun e he tid' hetid => ?_, fun hfits => ?_⟩
  · obtain ⟨pageNum, hpage⟩ := h.page e he
    obtain rfl := Option.some.inj ((LogEntry.table_of_page hpage).symm.trans hetid)
    exact hsome tid (by rw [ht]; rfl)
  obtain ⟨hfit', hpages⟩ := h.leads (hfits tid t ht)
  constructor
  -- the free slots are those of the record files, and this table has its new one
  · intro tid' t₁ ht₁
    rw [htables] at ht₁
    replace ht₁ : (if tid' = tid then some t' else db.tables tid') = some t₁ := ht₁
    split at ht₁
    · rename_i heq
      obtain rfl := Option.some.inj ht₁
      rw [heq]
      exact hfit'
    · exact hfits tid' t₁ ht₁
  · obtain ⟨pages', happly, hown, hother⟩ := hpages db.pages (Database.pages_table ht)
    -- the pages of the table are those of its new file, the others are as before
    have heq : pages' = db'.pages := by
      funext p
      obtain ⟨tid', pageNum⟩ := p
      by_cases htid : tid' = tid
      · subst htid
        rw [hown, Database.pages_table]
        rw [htables]
        exact if_pos rfl
      · rw [hother (tid', pageNum) htid]
        unfold Database.pages
        rw [htables]
        show _ = match (if tid' = tid then some t' else db.tables tid') with
          | none => fun _ => none
          | some t => t.file.page pageNum
        rw [if_neg htid]
    rw [happly, heq]

/-- One row of a table has changed. -/
theorem Database.LeadsTo.row {l : Loc} {t : Table D U} {r r' : Row D} (ht : db.tables l.1 = some t)
    (hr : t.file.row l.2 = some r)
    (htables : db'.tables = (db.setTable l.1 { t with file := t.file.bind l.2 r' }).tables) :
    db.LeadsTo capacity [.update l r'] db' :=
  .table ht (.update hr) htables

/-! ### The steps -/

variable {rc : RC}

/-- INSERT of a transaction. -/
theorem insertRecord_logOf {T : Int} {tid : TableId} {data : D} {p : Placement D}
    (hfit : p.FirstFit (capacity tid)) (h : db.insertRecord T tid data p = .ok (rc, db')) :
    db.LeadsTo capacity (db.logOf (.insertRecord T tid data p)) db' := by
  unfold Database.insertRecord at h
  obtain ⟨x, -, h⟩ := ok_of_bind h
  obtain ⟨t, ht, h⟩ := ok_of_bind h
  obtain ⟨⟨rc', rid, t'⟩, hins, h⟩ := ok_of_bind h
  replace ht := Database.findTable_ok ht
  have hleads := insertRecord_leadsTo hfit hins
  unfold Database.logOf
  dsimp only at h ⊢
  rw [ht]
  dsimp only
  rw [hins]
  split at h
  · rename_i rid'
    obtain ⟨-, rfl⟩ := Prod.mk.inj (Except.ok.inj h)
    have htable : db.LeadsTo capacity
        (insertRecordLog tid t (p.place 0) { beginXid := -T, endXid := maxTrxId, data })
        ((db.setTable tid t').setTrx T (x.push ⟨.insert, tid, rid'⟩)) := .table ht hleads rfl
    refine htable.trx fun tid' htid' => ?_
    obtain rfl := Option.some.inj htid'
    exact Option.isSome_iff_exists.mpr ⟨t', if_pos rfl⟩
  · rename_i hne
    obtain ⟨-, rfl⟩ := Prod.mk.inj (Except.ok.inj h)
    split
    · rename_i heq
      obtain ⟨rfl, h'⟩ := Prod.mk.inj (Except.ok.inj heq)
      obtain ⟨rfl, -⟩ := Prod.mk.inj h'
      exact absurd rfl (hne _ rfl)
    · rw [List.append_nil]
      exact .table ht hleads rfl

/-- DELETE of a transaction. -/
theorem deleteRecord_logOf {T : Int} {tid : TableId} {rid : RecordId}
    (h : db.deleteRecord T tid rid = .ok (rc, db')) :
    db.LeadsTo capacity (db.logOf (.deleteRecord T tid rid)) db' := by
  unfold Database.deleteRecord at h
  obtain ⟨x, -, h⟩ := ok_of_bind h
  obtain ⟨t, ht, h⟩ := ok_of_bind h
  replace ht := Database.findTable_ok ht
  unfold Database.logOf
  dsimp only at h ⊢
  rw [Database.row_of_table ht]
  cases hr : t.file.row rid with
  | none =>
    rw [hr] at h
    obtain ⟨-, rfl⟩ := Prod.mk.inj (Except.ok.inj h)
    exact .same rfl
  | some r =>
    rw [hr] at h
    dsimp only at h ⊢
    split at h
    · rename_i hw
      obtain ⟨-, rfl⟩ := Prod.mk.inj (Except.ok.inj h)
      rw [if_neg hw]
      exact .same rfl
    · rename_i hw
      obtain ⟨-, rfl⟩ := Prod.mk.inj (Except.ok.inj h)
      rw [if_pos (not_not.mp hw)]
      have hrow : db.LeadsTo capacity [.update (tid, rid) { r with endXid := -T }]
        ((db.setTable tid { t with file := t.file.bind rid { r with endXid := -T } }).setTrx T
          (x.push ⟨.delete, tid, rid⟩)) := .row ht hr rfl
      refine hrow.trx fun tid' htid' => ?_
      obtain rfl := Option.some.inj htid'
      exact Option.isSome_iff_exists.mpr ⟨_, if_pos rfl⟩

/-- A commit rewrites the row in its place. -/
theorem commitOperation_logOf {T : Int} (h : db.commitOperation T = .ok (rc, db')) :
    db.LeadsTo capacity (db.logOf (.commitOperation T)) db' := by
  unfold Database.commitOperation at h
  unfold Database.logOf
  split at h
  · rename_i operations op pending c hx
    obtain ⟨t, ht, h⟩ := ok_of_bind h
    replace ht := Database.findTable_ok ht
    have hrow := Database.row_of_table ht op.loc.2
    dsimp only
    rw [hx]
    dsimp only
    rw [show db.row op.loc = t.file.row op.loc.2 from hrow]
    split at h
    · cases h
    · rename_i r hr
      split at h
      · cases h
      · obtain ⟨-, rfl⟩ := Prod.mk.inj (Except.ok.inj h)
        rw [hr]
        exact .row ht hr rfl
  · cases h

/-- A rollback deletes the row, or rewrites it. -/
theorem rollbackOperation_logOf {T : Int} (h : db.rollbackOperation T = .ok (rc, db')) :
    db.LeadsTo capacity (db.logOf (.rollbackOperation T)) db' := by
  unfold Database.rollbackOperation at h
  unfold Database.logOf
  split at h
  · rename_i operations op pending hx
    obtain ⟨t, ht, h⟩ := ok_of_bind h
    replace ht := Database.findTable_ok ht
    have hrow := Database.row_of_table ht op.loc.2
    dsimp only at h ⊢
    rw [hx]
    dsimp only
    rw [show db.row op.loc = t.file.row op.loc.2 from hrow]
    split at h
    · rename_i htype
      obtain ⟨⟨rc', t'⟩, hdel, h⟩ := ok_of_bind h
      dsimp only at h
      split at h
      · cases h
      · rename_i hrc
        obtain ⟨-, rfl⟩ := Prod.mk.inj (Except.ok.inj h)
        rcases Table.deleteRecordAt_file hdel with ⟨rfl, -⟩ | ⟨-, ⟨r, hr⟩, hf⟩
        · exact absurd nofun hrc
        · rw [htype, hr]
          refine Database.LeadsTo.table ht ?_ rfl
          rw [hf]
          exact .delete hr
    · rename_i htype
      split at h
      · cases h
      · rename_i r hr
        split at h
        · cases h
        · obtain ⟨-, rfl⟩ := Prod.mk.inj (Except.ok.inj h)
          rw [htype, hr]
          exact .row ht hr rfl
  · cases h

/-- A new table has an empty file, so there is nothing to log. -/
theorem createTable_logOf {tid : TableId} (h : db.createTable tid = .ok (rc, db')) :
    db.LeadsTo capacity [] db' := by
  unfold Database.createTable at h
  split at h
  · cases h
  · rename_i hnone
    obtain ⟨-, rfl⟩ := Prod.mk.inj (Except.ok.inj h)
    have hsome : ∀ tid', (db.tables tid').isSome →
        ((db.setTable tid ⟨.empty, []⟩).tables tid').isSome := by
      intro tid' htid'
      show (if tid' = tid then some ⟨.empty, []⟩ else db.tables tid').isSome
      split
      · rfl
      · exact htid'
    refine ⟨hsome, List.forall_mem_nil _, fun hfits => ?_⟩
    constructor
    · intro tid' t ht
      replace ht : (if tid' = tid then some ⟨.empty, []⟩ else db.tables tid') = some t := ht
      split at ht
      · obtain rfl := Option.some.inj ht
        intro rid r hr
        cases hr
      · exact hfits tid' t ht
    · have heq : db.pages = (db.setTable tid ⟨.empty, []⟩).pages := by
        funext p
        unfold Database.pages
        show _ = match (if p.1 = tid then some ⟨.empty, []⟩ else db.tables p.1) with
          | none => fun _ => none
          | some t => t.file.page p.2
        by_cases htid : p.1 = tid
        · rw [if_pos htid, htid, hnone]
          funext slotNum
          show none = (RecordFile.empty : RecordFile D).page p.2 slotNum
          unfold RecordFile.page
          split <;> rfl
        · rw [if_neg htid]
      exact congrArg Except.ok heq

/-- The entries of a transaction that a step writes are about its INSERT or DELETE. -/
theorem Database.trx_mem_logOf {a : Action D U} (hfit : a.FirstFit capacity)
    (h : db.step a = .ok (rc, db')) {T : Int} {operation : MvccTrxLogOperation}
    (hmem : .trx T operation ∈ db.logOf a) : (∃ x, db.trx T = some x ∧ x.phase = .active) ∧
      ((∃ l, operation = .insertRecord l) ∨ ∃ l, operation = .deleteRecord l) := by
  -- an entry of a transaction is no entry of the record log
  have hrecord : ∀ {tid : TableId} {es : List (LogEntry D)} {f f' : RecordFile D},
      Trx.LeadsTo capacity tid es f f' → .trx T operation ∉ es := by
    intro tid es f f' hleads hmem
    obtain ⟨pageNum, hpage⟩ := hleads.page _ hmem
    cases hpage
  cases a with
  | insertRecord S tid data p =>
    obtain ⟨x, hx, h⟩ := ok_of_bind h
    obtain ⟨t, ht, h⟩ := ok_of_bind h
    obtain ⟨⟨rc', rid, t'⟩, hins, h⟩ := ok_of_bind h
    unfold Database.logOf at hmem
    dsimp only at hmem
    rw [Database.findTable_ok ht] at hmem
    -- behind the entries of the table there is that of the transaction, if the row is in
    rcases List.mem_append.mp hmem with hmem | hmem
    · exact absurd hmem (hrecord (insertRecord_leadsTo hfit hins))
    · split at hmem
      · obtain ⟨rfl, rfl⟩ := LogEntry.trx.inj (List.mem_singleton.mp hmem)
        exact ⟨⟨x, Database.activeTrx_ok hx⟩, Or.inl ⟨_, rfl⟩⟩
      · cases hmem
  | deleteRecord S tid rid =>
    obtain ⟨x, hx, -⟩ := ok_of_bind h
    -- a DELETE writes its own entry behind that of the page
    unfold Database.logOf at hmem
    dsimp only at hmem
    split at hmem
    · cases hmem
    · split at hmem
      · rcases List.mem_cons.mp hmem with heq | hmem
        · cases heq
        · obtain ⟨rfl, rfl⟩ := LogEntry.trx.inj (List.mem_singleton.mp hmem)
          exact ⟨⟨x, Database.activeTrx_ok hx⟩, Or.inr ⟨_, rfl⟩⟩
      · cases hmem
  -- the others write to the record log only
  | commitOperation S =>
    unfold Database.logOf at hmem
    dsimp only at hmem
    split at hmem
    · split at hmem
      · cases List.mem_singleton.mp hmem
      · cases hmem
    · cases hmem
  | rollbackOperation S =>
    unfold Database.logOf at hmem
    dsimp only at hmem
    split at hmem
    · split at hmem
      · cases List.mem_singleton.mp hmem
      · cases List.mem_singleton.mp hmem
      · cases hmem
    · cases hmem
  | update S tid stmt p =>
    obtain ⟨x, -, h⟩ := ok_of_bind h
    obtain ⟨t, ht, h⟩ := ok_of_bind h
    obtain ⟨⟨rc', t'⟩, hupd, h⟩ := ok_of_bind h
    unfold Database.logOf at hmem
    dsimp only at hmem
    rw [Database.findTable_ok ht] at hmem
    exact absurd hmem (hrecord (openUpdate_leadsTo hfit hupd))
  | insertMadeRecord tid data p =>
    obtain ⟨t, ht, h⟩ := ok_of_bind h
    obtain ⟨⟨rc', rid, t'⟩, hins, h⟩ := ok_of_bind h
    unfold Database.logOf at hmem
    dsimp only at hmem
    rw [Database.findTable_ok ht] at hmem
    exact absurd hmem (hrecord (insertRecord_leadsTo hfit hins))
  | start | commit | rollback | createTable | createIndex => cases hmem

/-- **Step.**  The entries of a step lead from the pages before it to the pages after it. -/
theorem Database.step_leadsTo {a : Action D U} (hfit : a.FirstFit capacity)
    (h : db.step a = .ok (rc, db')) : db.LeadsTo capacity (db.logOf a) db' := by
  -- only the record files matter: of the other steps none changes one
  cases a with
  | start =>
    obtain ⟨-, rfl⟩ := Prod.mk.inj (Except.ok.inj h)
    exact .same rfl
  | insertRecord T tid data p => exact insertRecord_logOf hfit h
  | deleteRecord T tid rid => exact deleteRecord_logOf h
  | commit T =>
    obtain ⟨x, -, h⟩ := ok_of_bind h
    obtain ⟨-, rfl⟩ := Prod.mk.inj (Except.ok.inj h)
    exact .same rfl
  | commitOperation T => exact commitOperation_logOf h
  | rollback T =>
    obtain ⟨x, -, h⟩ := ok_of_bind h
    obtain ⟨-, rfl⟩ := Prod.mk.inj (Except.ok.inj h)
    exact .same rfl
  | rollbackOperation T => exact rollbackOperation_logOf h
  | createTable tid => exact createTable_logOf h
  | createIndex T tid indexMeta =>
    obtain ⟨t, ht, h⟩ := ok_of_bind h
    obtain ⟨⟨rc', t'⟩, hcreate, h⟩ := ok_of_bind h
    obtain ⟨-, rfl⟩ := Prod.mk.inj (Except.ok.inj h)
    refine Database.LeadsTo.table (Database.findTable_ok ht) ?_ rfl
    rw [Database.createIndex_file hcreate]
    exact .refl
  | update T tid stmt p =>
    obtain ⟨x, -, h⟩ := ok_of_bind h
    obtain ⟨t, ht, h⟩ := ok_of_bind h
    obtain ⟨⟨rc', t'⟩, hupd, h⟩ := ok_of_bind h
    obtain ⟨-, rfl⟩ := Prod.mk.inj (Except.ok.inj h)
    replace ht := Database.findTable_ok ht
    unfold Database.logOf
    dsimp only
    rw [ht]
    exact .table ht (openUpdate_leadsTo hfit hupd) rfl
  | insertMadeRecord tid data p =>
    obtain ⟨t, ht, h⟩ := ok_of_bind h
    obtain ⟨⟨rc', rid, t'⟩, hins, h⟩ := ok_of_bind h
    obtain ⟨-, rfl⟩ := Prod.mk.inj (Except.ok.inj h)
    replace ht := Database.findTable_ok ht
    unfold Database.logOf
    dsimp only
    rw [ht]
    exact .table ht (insertRecord_leadsTo hfit hins) rfl

end Database

/-! ## The whole log -/

namespace LoggedDatabase

variable {capacity : TableId → Nat}

/-- New rows go to the first free slots. -/
def FirstFit (capacity : TableId → Nat) : LoggedAction D U → Prop
  | .session a => a.FirstFit capacity
  | _ => True

/-- The log leads to the stored records. -/
structure Logged (capacity : TableId → Nat) (s : LoggedDatabase D U) : Prop where
  fits : s.db.Fits capacity
  tables : ∀ e ∈ s.log, ∀ tid, e.table = some tid → (s.db.tables tid).isSome
  applyLog : (pageLog capacity).applyLog s.log (fun _ _ => none) = .ok s.db.pages

theorem Logged.empty : Logged capacity (LoggedDatabase.empty : LoggedDatabase D U) where
  fits _ _ h := nomatch h
  tables := List.forall_mem_nil _
  applyLog := rfl

/-- A transaction ends once, with an entry in the log. -/
theorem finish_ok {s s' : LoggedDatabase D U} {T : Int} {operation : MvccTrxLogOperation} {rc : RC}
    (h : s.finish T operation = .ok (rc, s')) :
    s.ended T = false ∧ s' = { s with
      log := s.log ++ [.trx T operation]
      ended := fun id => if id = T then true else s.ended id } := by
  unfold finish at h
  split at h
  · cases h
  · rename_i hended
    obtain ⟨-, rfl⟩ := Prod.mk.inj (Except.ok.inj h)
    exact ⟨Bool.not_eq_true _ ▸ hended, rfl⟩

/-- What a step does: it is one of the machine below, or it writes the last entry of a transaction
    that has worked off all its operations. -/
theorem step_cases {s s' : LoggedDatabase D U} {a : LoggedAction D U} {rc : RC}
    (h : s.step a = .ok (rc, s')) :
    (∃ b db', a = .session b ∧ s.db.step b = .ok (rc, db') ∧
      s' = { s with db := db', log := s.log ++ s.db.logOf b }) ∨
    ∃ T operation ops phase, s.db.trx T = some ⟨ops, [], phase⟩ ∧ s.ended T = false ∧
      ((∃ c, a = .logCommit T ∧ phase = .committing c ∧ operation = .commit c) ∨
        a = .logRollback T ∧ phase = .rollingBack ∧ operation = .rollback) ∧
      s' = { s with
        log := s.log ++ [.trx T operation]
        ended := fun id => if id = T then true else s.ended id } := by
  cases a with
  | session b =>
    obtain ⟨⟨rc', db'⟩, hb, h⟩ := ok_of_bind h
    obtain ⟨rfl, rfl⟩ := Prod.mk.inj (Except.ok.inj h)
    exact Or.inl ⟨b, db', rfl, hb, rfl⟩
  | logCommit T =>
    unfold step at h
    dsimp only at h
    split at h
    · rename_i ops c hx
      obtain ⟨hended, hs'⟩ := finish_ok h
      exact Or.inr ⟨T, .commit c, ops, .committing c, hx, hended, Or.inl ⟨c, rfl, rfl, rfl⟩, hs'⟩
    · cases h
  | logRollback T =>
    unfold step at h
    dsimp only at h
    split at h
    · rename_i ops hx
      obtain ⟨hended, hs'⟩ := finish_ok h
      exact Or.inr ⟨T, .rollback, ops, .rollingBack, hx, hended, Or.inr ⟨rfl, rfl, rfl⟩, hs'⟩
    · cases h

/-- **Step.** -/
theorem Logged.step {s s' : LoggedDatabase D U} {a : LoggedAction D U} {rc : RC}
    (h : Logged capacity s) (hfit : FirstFit capacity a) (hstep : s.step a = .ok (rc, s')) :
    Logged capacity s' := by
  rcases step_cases hstep with ⟨b, db', rfl, hb, rfl⟩ | ⟨T, operation, ops, phase, -, -, hor, rfl⟩
  · have hleads := Database.step_leadsTo hfit hb
    obtain ⟨hfits, happly⟩ := hleads.leads h.fits
    refine ⟨hfits, List.forall_mem_append.mpr ⟨fun e he tid htid => ?_, hleads.entries⟩,
      (PageLog.applyLog_append h.applyLog).trans happly⟩
    exact hleads.tables tid (h.tables e he tid htid)
  · refine ⟨h.fits, List.forall_mem_append.mpr ⟨h.tables, fun e he tid htid => ?_⟩,
      (PageLog.applyLog_append h.applyLog).trans rfl⟩
    obtain rfl := List.mem_singleton.mp he
    rcases hor with ⟨c, -, -, rfl⟩ | ⟨-, -, rfl⟩ <;> cases htid

/-- **Run.** -/
theorem logged_of_reachable {ok : LoggedDatabase D U → LoggedAction D U → Prop}
    (himp : ∀ s a, ok s a → FirstFit capacity a) {s : LoggedDatabase D U}
    (h : Reachable LoggedDatabase.step ok .empty s) : Logged capacity s :=
  h.invariant (I := Logged capacity) Logged.empty
    fun _ _ _ _ hs hok hstep => hs.step (himp _ _ hok) hstep

end LoggedDatabase

end Miniob.Trx
