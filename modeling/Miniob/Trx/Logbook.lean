/-
  The log as a record of what the transactions have done.

  In a run of INSERT and DELETE statements the entries of the transactions and their operations are
  the same thing: `Logbook` says so, and that a transaction whose COMMIT or ROLLBACK entry is in the
  log has worked off its operations.  `LoggedStep` lists what a step does to the rows together with
  what it writes.
-/
import Miniob.Trx.Inserts
import Miniob.Trx.RecoveredIds

namespace Miniob.Trx

open Miniob.Common Miniob.Db Miniob.Storage

variable {D U : Type} {capacity : TableId → Nat}

/-! ## Steps and their entries -/

/-- The entry of an operation. -/
def Operation.logged (op : Operation) : MvccTrxLogOperation :=
  match op.type with
  | .insert => .insertRecord op.loc
  | .delete => .deleteRecord op.loc

/-- Each operation has its own entry. -/
theorem Operation.logged_inj {op op' : Operation} (h : op.logged = op'.logged) : op = op' := by
  obtain ⟨type, l⟩ := op
  obtain ⟨type', l'⟩ := op'
  cases type <;> cases type'
  · exact Operation.ext' rfl (MvccTrxLogOperation.insertRecord.inj h)
  · cases h
  · cases h
  · exact Operation.ext' rfl (MvccTrxLogOperation.deleteRecord.inj h)

/-- The action is one of a transaction, or creates a table or an index. -/
def OfTransactions : Action D U → Prop
  | .update .. => False
  | .insertMadeRecord .. => False
  | _ => True

/-- What an action does to the versions of `db`, and what it writes. -/
inductive LoggedStep (db : Database D U) :
    Action D U → List (LogEntry D) → Versions D → Prop where
  | insert {T : Int} {x : MvccTrx} {tid : TableId} {rid : RecordId} {data : D} {p : Placement D} :
      db.trx T = some x → x.phase = .active → db.row (tid, rid) = none →
      LoggedStep db (.insertRecord T tid data p)
        [.insert (tid, rid) ⟨-T, maxTrxId, data⟩, .trx T (.insertRecord (tid, rid))]
        ((db.versions.setRow (tid, rid) (some ⟨-T, maxTrxId, data⟩)).setTrx T
          (x.push ⟨.insert, tid, rid⟩))
  /-- An index has refused the row. -/
  | refused {T : Int} {x : MvccTrx} {tid : TableId} {rid : RecordId} {data : D} {p : Placement D} :
      db.trx T = some x → x.phase = .active → LoggedStep db (.insertRecord T tid data p)
        [.insert (tid, rid) ⟨-T, maxTrxId, data⟩, .delete (tid, rid)] db.versions
  | delete {T : Int} {x : MvccTrx} {tid : TableId} {rid : RecordId} {r : Row D} :
      db.trx T = some x → x.phase = .active → db.row (tid, rid) = some r → Writable T r →
      LoggedStep db (.deleteRecord T tid rid)
        [.update (tid, rid) { r with endXid := -T }, .trx T (.deleteRecord (tid, rid))]
        ((db.versions.setRow (tid, rid) (some { r with endXid := -T })).setTrx T
          (x.push ⟨.delete, tid, rid⟩))
  /-- One entry of the record manager at most, and no new operation. -/
  | other {a : Action D U} {es : List (LogEntry D)} {v' : Versions D} :
      RowStep db a v' → (es = [] ∨ ∃ e p, es = [e] ∧ e.page = some p) →
      (∀ T x', v'.trx T = some x' → x'.operations = [] ∨ ∃ x, db.trx T = some x ∧
        x'.operations = x.operations) →
      (∀ T x, db.trx T = some x → ∃ x', v'.trx T = some x' ∧ x'.operations = x.operations) →
      (∀ l r, v'.row l = some r → ∃ r₀, db.row l = some r₀ ∧ r.data = r₀.data) →
      LoggedStep db a es v'

section Step

variable {db db' : Database D U} {rc : RC}

/-- A step that leaves the versions as they are. -/
theorem LoggedStep.idle {a : Action D U} {es : List (LogEntry D)}
    (hes : es = [] ∨ ∃ e p, es = [e] ∧ e.page = some p) : LoggedStep db a es db.versions :=
  .other .idle hes (fun _ x' hx' => Or.inr ⟨x', hx', rfl⟩) (fun _ x hx => ⟨x, hx, rfl⟩)
    fun _ r hr => ⟨r, hr, rfl⟩

/-- A step that changes a transaction, but not its operations. -/
theorem LoggedStep.turn {a : Action D U} {es : List (LogEntry D)} {T c : Int} {x x' : MvccTrx}
    (hstep : RowStep db a ({ db.versions with currentTrxId := c }.setTrx T x'))
    (hes : es = [] ∨ ∃ e p, es = [e] ∧ e.page = some p) (hx : db.trx T = some x)
    (hops : x'.operations = x.operations) :
    LoggedStep db a es ({ db.versions with currentTrxId := c }.setTrx T x') := by
  refine .other hstep hes ?_ ?_ fun _ r hr => ⟨r, hr, rfl⟩
  · intro S y hy
    rcases Versions.setTrx_some.mp hy with ⟨rfl, rfl⟩ | ⟨-, hy'⟩
    · exact Or.inr ⟨x, hx, hops⟩
    · exact Or.inr ⟨y, hy', rfl⟩
  · intro S y hy
    by_cases hS : S = T
    · subst hS
      obtain rfl := Option.some.inj (hx.symm.trans hy)
      exact ⟨x', Versions.setTrx_some.mpr (Or.inl ⟨rfl, rfl⟩), hops⟩
    · exact ⟨y, Versions.setTrx_some.mpr (Or.inr ⟨hS, hy⟩), rfl⟩

/-- A step that works off an operation. -/
theorem LoggedStep.workOff {a : Action D U} {es : List (LogEntry D)} {T : Int} {x x' : MvccTrx}
    {l : Loc} {r : Row D} {r' : Option (Row D)}
    (hstep : RowStep db a ((db.versions.setRow l r').setTrx T x'))
    (hes : es = [] ∨ ∃ e p, es = [e] ∧ e.page = some p) (hx : db.trx T = some x)
    (hops : x'.operations = x.operations) (hr : db.row l = some r)
    (hdata : ∀ r₁, r' = some r₁ → r₁.data = r.data) :
    LoggedStep db a es ((db.versions.setRow l r').setTrx T x') := by
  refine .other hstep hes ?_ ?_ ?_
  · intro S y hy
    rcases Versions.setTrx_some.mp hy with ⟨rfl, rfl⟩ | ⟨-, hy'⟩
    · exact Or.inr ⟨x, hx, hops⟩
    · exact Or.inr ⟨y, hy', rfl⟩
  · intro S y hy
    by_cases hS : S = T
    · subst hS
      obtain rfl := Option.some.inj (hx.symm.trans hy)
      exact ⟨x', Versions.setTrx_some.mpr (Or.inl ⟨rfl, rfl⟩), hops⟩
    · exact ⟨y, Versions.setTrx_some.mpr (Or.inr ⟨hS, hy⟩), rfl⟩
  · intro l' r₁ hr₁
    rcases Versions.setRow_some.mp hr₁ with ⟨rfl, hr'⟩ | ⟨-, hr'⟩
    · exact ⟨r, hr, hdata r₁ hr'⟩
    · exact ⟨r₁, hr', rfl⟩

/-- INSERT logs the row and itself, or the row and that it has been taken back. -/
theorem insertRecord_loggedStep {T : Int} {tid : TableId} {data : D} {p : Placement D}
    (h : db.insertRecord T tid data p = .ok (rc, db')) :
    LoggedStep db (.insertRecord T tid data p) (db.logOf (.insertRecord T tid data p))
      db'.versions := by
  unfold Database.insertRecord at h
  obtain ⟨x, hx, h⟩ := ok_of_bind h
  obtain ⟨t, ht, h⟩ := ok_of_bind h
  obtain ⟨⟨rc', rid, t'⟩, hins, h⟩ := ok_of_bind h
  obtain ⟨hx, hphase⟩ := Database.activeTrx_ok hx
  replace ht := Database.findTable_ok ht
  have hfile := Table.insertRecord_file hins
  have hrun := hins
  unfold Database.logOf
  dsimp only at h ⊢
  rw [ht]
  dsimp only
  rw [hins]
  unfold insertRecordLog
  unfold Table.insertRecord at hrun
  -- the entries follow the run of `insert_record`: refused by the file, stored, or taken back by an index
  cases hplace : p.place 0 t.file with
  | error rc₀ =>
    rw [hplace] at hrun
    obtain ⟨rfl, h'⟩ := Prod.mk.inj (Except.ok.inj hrun)
    obtain ⟨rfl, rfl⟩ := Prod.mk.inj h'
    have hsame : LoggedStep db (.insertRecord T tid data p) [] (db.setTable tid t).versions := by
      rw [Database.versions_setTable_same ht rfl]
      exact .idle (Or.inl rfl)
    cases rc₀ with
    | success => exact absurd rfl (p.refused 0 _ _ hplace)
    | _ =>
      obtain ⟨-, rfl⟩ := Prod.mk.inj (Except.ok.inj h)
      exact hsame
  | ok rid' =>
    rw [hplace] at hrun
    obtain ⟨⟨rc₁, indexes⟩, hentries, hrun⟩ := ok_of_bind hrun
    dsimp only at hrun ⊢
    rw [hentries]
    -- stored: the one entry is that of the insertion
    by_cases hrc : rc₁ = .success
    · subst hrc
      rw [if_neg fun hne => hne rfl] at hrun
      obtain ⟨rfl, h'⟩ := Prod.mk.inj (Except.ok.inj hrun)
      obtain ⟨rfl, rfl⟩ := Prod.mk.inj h'
      dsimp only at h
      obtain ⟨-, rfl⟩ := Prod.mk.inj (Except.ok.inj h)
      cases hfile with
      | stored hfree hf =>
        rw [Database.setTrx_versions, Database.versions_setTable ht fun rid' =>
          RecordFile.bind_row ..]
        exact .insert hx hphase (by rw [Database.row_of_table ht, hfree])
      | rejected hrc _ => exact absurd rfl hrc
    -- refused by an index: the insertion and the deletion are both in the log, and the file is as before
    · rw [if_pos hrc] at hrun
      obtain ⟨⟨rc₂, indexes'⟩, -, hrun⟩ := ok_of_bind hrun
      obtain ⟨rfl, h'⟩ := Prod.mk.inj (Except.ok.inj hrun)
      obtain ⟨rfl, rfl⟩ := Prod.mk.inj h'
      have hback : t.file = (t.file.bind rid' ⟨-T, maxTrxId, data⟩).unbind rid' := by
        cases hfile with
        | stored => exact absurd rfl hrc
        | rejected _ hf => exact hf.symm
      have hsame : ∀ {t₁ : Table D U}, t₁.file = t.file →
          LoggedStep db (.insertRecord T tid data p)
            [.insert (tid, rid') ⟨-T, maxTrxId, data⟩, .delete (tid, rid')]
            (db.setTable tid t₁).versions := by
        intro t₁ ht₁
        rw [Database.versions_setTable_same ht ht₁]
        exact .refused hx hphase
      cases rc₁ with
      | success => exact absurd rfl hrc
      | _ =>
        obtain ⟨-, rfl⟩ := Prod.mk.inj (Except.ok.inj h)
        exact hsame hback.symm

/-- DELETE logs the marked row and itself. -/
theorem deleteRecord_loggedStep {T : Int} {tid : TableId} {rid : RecordId}
    (h : db.deleteRecord T tid rid = .ok (rc, db')) :
    LoggedStep db (.deleteRecord T tid rid) (db.logOf (.deleteRecord T tid rid)) db'.versions := by
  unfold Database.deleteRecord at h
  obtain ⟨x, hx, h⟩ := ok_of_bind h
  obtain ⟨t, ht, h⟩ := ok_of_bind h
  obtain ⟨hx, hphase⟩ := Database.activeTrx_ok hx
  replace ht := Database.findTable_ok ht
  have hrow := Database.row_of_table ht rid
  unfold Database.logOf
  dsimp only at h ⊢
  rw [hrow]
  -- without a record, or when nobody may write it, nothing is logged
  cases hr : t.file.row rid with
  | none =>
    rw [hr] at h
    obtain ⟨-, rfl⟩ := Prod.mk.inj (Except.ok.inj h)
    exact .idle (Or.inl rfl)
  | some r =>
    rw [hr] at h
    dsimp only at h ⊢
    split at h
    · rename_i hw
      obtain ⟨-, rfl⟩ := Prod.mk.inj (Except.ok.inj h)
      rw [if_neg hw]
      exact .idle (Or.inl rfl)
    -- the row is marked, and the delete is logged
    · rename_i hw
      obtain ⟨-, rfl⟩ := Prod.mk.inj (Except.ok.inj h)
      rw [if_pos (not_not.mp hw), Database.setTrx_versions,
        Database.versions_setTable ht fun rid' => RecordFile.bind_row ..]
      exact .delete hx hphase (hrow.trans hr) (not_not.mp hw)

/-- The other actions of transactions write one entry at most. -/
theorem Database.logOf_short (db : Database D U) {a : Action D U} (ha : OfTransactions a)
    (hinsert : ∀ T tid data p, a ≠ .insertRecord T tid data p)
    (hdelete : ∀ T tid rid, a ≠ .deleteRecord T tid rid) :
    db.logOf a = [] ∨ ∃ e p, db.logOf a = [e] ∧ e.page = some p := by
  cases a with
  | insertRecord T tid data p => exact absurd rfl (hinsert T tid data p)
  | deleteRecord T tid rid => exact absurd rfl (hdelete T tid rid)
  | commitOperation T =>
    unfold Database.logOf
    dsimp only
    split
    · split
      · exact Or.inr ⟨_, _, rfl, rfl⟩
      · exact Or.inl rfl
    · exact Or.inl rfl
  | rollbackOperation T =>
    unfold Database.logOf
    dsimp only
    split
    · split
      · exact Or.inr ⟨_, _, rfl, rfl⟩
      · exact Or.inr ⟨_, _, rfl, rfl⟩
      · exact Or.inl rfl
    · exact Or.inl rfl
  | update | insertMadeRecord => exact ha.elim
  | start | commit | rollback | createTable | createIndex => exact Or.inl rfl

/-- **Step.** -/
theorem Database.step_loggedStep {a : Action D U} (ha : OfTransactions a)
    (hfresh : ∀ T x, db.trx T = some x → a = .start → T ≠ nextTrxId db.currentTrxId)
    (h : db.step a = .ok (rc, db')) : LoggedStep db a (db.logOf a) db'.versions := by
  -- INSERT and DELETE write to the record log as well and are treated above
  have hstep := Database.step_rowStep h
  by_cases hinsert : ∃ T tid data p, a = .insertRecord T tid data p
  · obtain ⟨T, tid, data, p, rfl⟩ := hinsert
    exact insertRecord_loggedStep h
  by_cases hdelete : ∃ T tid rid, a = .deleteRecord T tid rid
  · obtain ⟨T, tid, rid, rfl⟩ := hdelete
    exact deleteRecord_loggedStep h
  have hes := db.logOf_short ha (fun T tid data p heq => hinsert ⟨T, tid, data, p, heq⟩)
    fun T tid rid heq => hdelete ⟨T, tid, rid, heq⟩
  generalize db.logOf a = es at hes ⊢
  generalize db'.versions = v' at hstep ⊢
  have hrowStep := hstep
  -- every other step writes entries of its transaction only, and the case says what it does to rows and
  -- transactions
  cases hstep with
  | insert => exact absurd ⟨_, _, _, _, rfl⟩ hinsert
  | delete => exact absurd ⟨_, _, _, rfl⟩ hdelete
  | start =>
    refine .other hrowStep hes ?_ ?_ fun _ r hr => ⟨r, hr, rfl⟩
    · intro S y hy
      rcases Versions.setTrx_some.mp hy with ⟨rfl, rfl⟩ | ⟨-, hy'⟩
      · exact Or.inl rfl
      · exact Or.inr ⟨y, hy', rfl⟩
    · exact fun S y hy => ⟨y, Versions.setTrx_some.mpr (Or.inr ⟨hfresh S y hy rfl, hy⟩), rfl⟩
  | commit hx hphase => exact .turn hrowStep hes hx rfl
  | rollback hx hphase => exact LoggedStep.turn (c := db.currentTrxId) hrowStep hes hx rfl
  | @commitOperation T c operations pending op r hx hr hxid =>
    refine .workOff hrowStep hes hx rfl hr fun r₁ hr₁ => ?_
    obtain rfl := Option.some.inj hr₁
    obtain ⟨type, l⟩ := op
    cases type <;> rfl
  | undoInsert hx htype hr => exact .workOff hrowStep hes hx rfl hr nofun
  | undoDelete hx htype hr hend =>
    refine .workOff hrowStep hes hx rfl hr fun r₁ hr₁ => ?_
    obtain rfl := Option.some.inj hr₁
    rfl
  | update | made => exact ha.elim
  | idle => exact .idle hes

end Step

/-! ## The invariant -/

/-- The entries of an INSERT that has succeeded. -/
def Inserted (log : List (LogEntry D)) (T : Int) (l : Loc) (data : D) : Prop :=
  ∃ i : Nat, log[i]? = some (.insert l ⟨-T, maxTrxId, data⟩) ∧
    log[i + 1]? = some (.trx T (.insertRecord l))

/-- A run of transactions, in which the deletes are kept (`KeepsDeletes`). -/
def KeepsLogbook (capacity : TableId → Nat) (s : LoggedDatabase D U) (a : LoggedAction D U) : Prop :=
  LoggedDatabase.FirstFit capacity a ∧ match a with
    | .session b => OfTransactions b ∧ KeepsDeletes s.db b
    | _ => True

/-- What the log says about the transactions and the rows. -/
structure Logbook (s : LoggedDatabase D U) : Prop where
  inserts : Inserts s.db.versions
  /-- No row has been loaded. -/
  unloaded : ∀ l r, s.db.row l = some r → r.beginXid ≠ 0
  /-- A COMMIT in the log is a transaction that has committed everything. -/
  commits : ∀ T c, .trx T (.commit c) ∈ s.log →
    ∃ ops, s.db.trx T = some ⟨ops, [], .committing c⟩
  /-- A ROLLBACK in the log is one that has taken everything back. -/
  rollbacks : ∀ T, .trx T .rollback ∈ s.log → ∃ ops, s.db.trx T = some ⟨ops, [], .rollingBack⟩
  /-- The operations in the log are those of the transactions. -/
  operations : ∀ T op, .trx T op.logged ∈ s.log ↔ ∃ x, s.db.trx T = some x ∧ op ∈ x.operations
  /-- The log has the data of every insert. -/
  inserted : ∀ T x l, s.db.trx T = some x → ⟨.insert, l⟩ ∈ x.operations →
    ∃ data, Inserted s.log T l data
  /-- It is the data of the row. -/
  data : ∀ T x l data r, Inserted s.log T l data → s.db.trx T = some x → x.phase ≠ .rollingBack →
    s.db.row l = some r → r.data = data

section Logbook

theorem Inserted.append {log : List (LogEntry D)} {T : Int} {l : Loc} {data : D}
    (h : Inserted log T l data) (es : List (LogEntry D)) : Inserted (log ++ es) T l data := by
  obtain ⟨i, hi, hi'⟩ := h
  obtain ⟨hlt, -⟩ := List.getElem?_eq_some_iff.mp hi'
  exact ⟨i, by rw [List.getElem?_append_left (by omega)]; exact hi,
    by rw [List.getElem?_append_left hlt]; exact hi'⟩

/-- An INSERT in a log that has grown is in the old log, or its entries are the new ones. -/
theorem Inserted.of_append {log es : List (LogEntry D)} {T : Int} {l : Loc} {data : D}
    (h : Inserted (log ++ es) T l data) (hhead : es[0]? ≠ some (.trx T (.insertRecord l))) :
    Inserted log T l data ∨ Inserted es T l data := by
  obtain ⟨i, hi, hi'⟩ := h
  rcases Nat.lt_or_ge (i + 1) log.length with hlt | hge
  · rw [List.getElem?_append_left (by omega)] at hi
    rw [List.getElem?_append_left hlt] at hi'
    exact Or.inl ⟨i, hi, hi'⟩
  · rw [List.getElem?_append_right hge] at hi'
    rcases Nat.eq_or_lt_of_le hge with heq | hlt
    · rw [← heq, Nat.sub_self] at hi'
      exact absurd hi' hhead
    · rw [List.getElem?_append_right (by omega)] at hi
      refine Or.inr ⟨i - log.length, hi, ?_⟩
      rw [← hi']
      congr 1
      omega

/-- Nothing is logged at the start. -/
theorem Logbook.empty : Logbook (LoggedDatabase.empty : LoggedDatabase D U) where
  inserts := Inserts.empty
  unloaded _ _ h := nomatch h
  commits _ _ h := nomatch h
  rollbacks _ h := nomatch h
  operations _ _ := iff_of_false List.not_mem_nil fun ⟨_, hx, _⟩ => nomatch hx
  inserted _ _ _ h := nomatch h
  data _ _ _ _ _ _ h := nomatch h

variable {db : Database D U}

/-- A transaction that has worked off its operations changes no more, and one that rolls back goes on
    rolling back. -/
theorem ending_step {a : Action D U} {v' : Versions D}
    (hfresh : ∀ T x, db.trx T = some x → a = .start → T ≠ nextTrxId db.currentTrxId)
    (hstep : RowStep db a v') {T : Int} {x : MvccTrx} (hx : db.trx T = some x)
    (hphase : x.phase ≠ .active) :
    ∃ x', v'.trx T = some x' ∧ x'.phase = x.phase ∧ (x.pending = [] → x' = x) := by
  have hother : ∀ {v : Versions D} {S : Int} {y : MvccTrx}, v.trx = db.trx → T ≠ S →
      ∃ x', (v.setTrx S y).trx T = some x' ∧ x'.phase = x.phase ∧ (x.pending = [] → x' = x) := by
    intro v S y hv hne
    exact ⟨x, Versions.setTrx_some.mpr (Or.inr ⟨hne, by rw [hv]; exact hx⟩), rfl, fun _ => rfl⟩
  cases hstep with
  | start => exact hother rfl (hfresh T x hx rfl)
  | @insert S y tid rid data p hy hactive | @delete S y tid rid r hy hactive
  | @commit S y hy hactive | @rollback S y hy hactive =>
    refine hother rfl ?_
    rintro rfl
    obtain rfl := Option.some.inj (hx.symm.trans hy)
    exact hphase hactive
  | @commitOperation S c operations pending op r hy | @undoInsert S operations pending op r hy
  | @undoDelete S operations pending op r hy =>
    by_cases hS : T = S
    · subst hS
      obtain rfl := Option.some.inj (hx.symm.trans hy)
      exact ⟨_, Versions.setTrx_some.mpr (Or.inl ⟨rfl, rfl⟩), rfl, fun hnil => nomatch hnil⟩
    · exact hother rfl hS
  | update | made | idle => exact ⟨x, hx, rfl, fun _ => rfl⟩

/-- Transactions set begin fields, they do not clear them. -/
theorem unloaded_step {a : Action D U} {v' : Versions D} (ha : OfTransactions a)
    (hmarks : Marks db.versions) (h : ∀ l r, db.row l = some r → r.beginXid ≠ 0)
    (hstep : RowStep db a v') {l : Loc} {r : Row D} (hr : v'.row l = some r) : r.beginXid ≠ 0 := by
  cases hstep with
  | start | commit | rollback | idle => exact h l r hr
  | @insert T x tid rid data p hx =>
    rcases Versions.setRow_some.mp hr with ⟨-, hr'⟩ | ⟨-, hr'⟩
    · obtain rfl := Option.some.inj hr'
      have := (hmarks.trx T x hx).pos
      show -T ≠ 0
      omega
    · exact h l r hr'
  -- a delete, done or undone, writes the other field
  | delete hx hphase hr₀ | undoDelete hx htype hr₀ =>
    rcases Versions.setRow_some.mp hr with ⟨-, hr'⟩ | ⟨-, hr'⟩
    · obtain rfl := Option.some.inj hr'
      have hb := h _ _ hr₀
      exact hb
    · exact h l r hr'
  -- the commit writes its identifier, which is positive
  | @commitOperation T c operations pending op r₀ hx hr₀ =>
    rcases Versions.setRow_some.mp hr with ⟨-, hr'⟩ | ⟨-, hr'⟩
    · obtain rfl := Option.some.inj hr'
      have hc := (hmarks.trx T _ hx).commitPos c rfl
      obtain ⟨type, l'⟩ := op
      cases type with
      | insert =>
        show c ≠ 0
        omega
      | delete =>
        have hb := h _ _ hr₀
        exact hb
    · exact h l r hr'
  | undoInsert =>
    rcases Versions.setRow_some.mp hr with ⟨-, hr'⟩ | ⟨-, hr'⟩
    · cases hr'
    · exact h l r hr'
  | update | made => exact ha.elim

/-- A step that writes `es` adds the operations `N` to the transactions, and no data but that of its INSERTs. -/
structure Adds (db : Database D U) (es : List (LogEntry D)) (N : Int → Operation → Prop) (v' : Versions D) :
    Prop where
  entries : ∀ T operation, .trx T operation ∈ es ↔ ∃ op, N T op ∧ operation = op.logged
  operations : ∀ T op, (∃ x', v'.trx T = some x' ∧ op ∈ x'.operations) ↔
    (∃ x, db.trx T = some x ∧ op ∈ x.operations) ∨ N T op
  /-- The entry of an INSERT does not come first, so that it does not belong to an older one. -/
  head : ∀ T l, es[0]? ≠ some (.trx T (.insertRecord l))
  inserted : ∀ T l, N T ⟨.insert, l⟩ → ∃ data, Inserted es T l data
  data : ∀ T l data r, Inserted es T l data → v'.row l = some r → r.data = data
  row : ∀ l r, v'.row l = some r → db.row l = none ∨ ∃ r₀, db.row l = some r₀ ∧ r.data = r₀.data

/-- A step of a session; `N` are the operations that it adds. -/
theorem Logbook.session {s : LoggedDatabase D U} (h : Logbook s) {a : Action D U} {db' : Database D U}
    {es : List (LogEntry D)} {N : Int → Operation → Prop} (ha : OfTransactions a)
    (hfresh : ∀ T x, s.db.trx T = some x → a = .start → T ≠ nextTrxId s.db.currentTrxId)
    (hkeeps : KeepsDeletes s.db a) (hstep : RowStep s.db a db'.versions)
    (hadds : Adds s.db es N db'.versions) : Logbook { s with db := db', log := s.log ++ es } := by
  -- what the entries add to the operations and the rows
  obtain ⟨hes, hops', hhead, hnew, hdata, hrow⟩ := hadds
  have hops : ∀ T op, (∃ x', db'.trx T = some x' ∧ op ∈ x'.operations) ↔
      (∃ x, s.db.trx T = some x ∧ op ∈ x.operations) ∨ N T op := hops'
  have hinserts : Inserts db'.versions := by
    refine h.inserts.step ⟨hkeeps, ?_⟩ hstep
    cases a with
    | update => exact ha.elim
    | _ => trivial
  have hmem : ∀ {T operation}, .trx T operation ∈ s.log ++ es ↔
      .trx T operation ∈ s.log ∨ ∃ op, N T op ∧ operation = op.logged := by
    intro T operation
    rw [List.mem_append, hes]
  refine ⟨hinserts, fun l r hr => unloaded_step ha h.inserts.deletes.marks h.unloaded hstep hr,
    ?_, ?_, ?_, ?_, ?_⟩
  -- a COMMIT or a ROLLBACK in the log is an old one, since the new entries are operations
  · intro T c hcommit
    rcases hmem.mp hcommit with hcommit | ⟨⟨type, l⟩, -, heq⟩
    · obtain ⟨ops, hx⟩ := h.commits T c hcommit
      obtain ⟨x', hx', -, heq⟩ := ending_step hfresh hstep hx nofun
      exact ⟨ops, hx'.trans (congrArg some (heq rfl))⟩
    · cases type <;> cases heq
  · intro T hrollback
    rcases hmem.mp hrollback with hrollback | ⟨⟨type, l⟩, -, heq⟩
    · obtain ⟨ops, hx⟩ := h.rollbacks T hrollback
      obtain ⟨x', hx', -, heq⟩ := ending_step hfresh hstep hx nofun
      exact ⟨ops, hx'.trans (congrArg some (heq rfl))⟩
    · cases type <;> cases heq
  -- the operations in the log are those of the transactions
  · intro T op
    rw [hmem, hops, h.operations]
    refine or_congr_right ⟨?_, fun hop => ⟨op, hop, rfl⟩⟩
    rintro ⟨op', hop', heq⟩
    rw [Operation.logged_inj heq]
    exact hop'
  -- each INSERT of a transaction has its record entry in front of it
  · intro T x' l hx' hop
    rcases (hops T ⟨.insert, l⟩).mp ⟨x', hx', hop⟩ with ⟨x, hx, hop⟩ | hop
    · obtain ⟨data, hins⟩ := h.inserted T x l hx hop
      exact ⟨data, hins.append es⟩
    · obtain ⟨data, i, hi, hi'⟩ := hnew T l hop
      refine ⟨data, s.log.length + i, ?_, ?_⟩
      · rw [List.getElem?_append_right (by omega), Nat.add_sub_cancel_left]
        exact hi
      · rw [List.getElem?_append_right (by omega), Nat.add_assoc, Nat.add_sub_cancel_left]
        exact hi'
  -- the record in that entry is the one that is stored
  · intro T x' l data r hins hx' hphase hr
    rcases hins.of_append (hhead T l) with hins | hins
    · -- the INSERT is an old one, and its row was there before
      have hentry : .trx T (Operation.logged ⟨.insert, l⟩) ∈ s.log := by
        obtain ⟨i, -, hi⟩ := hins
        exact List.mem_of_getElem? hi
      obtain ⟨x, hx, hop⟩ := (h.operations T ⟨.insert, l⟩).mp hentry
      have hphase₀ : x.phase ≠ .rollingBack := by
        intro hrolling
        obtain ⟨x₁, hx₁, hp, -⟩ := ending_step hfresh hstep hx (by rw [hrolling]; nofun)
        obtain rfl := Option.some.inj (hx'.symm.trans hx₁)
        exact hphase (hp.trans hrolling)
      obtain ⟨r₀, hr₀, -⟩ := h.inserts.inserted T x l hx hphase₀ hop
      rcases hrow l r hr with hnone | ⟨r₁, hr₁, heq⟩
      · cases hnone.symm.trans hr₀
      · exact heq.trans (h.data T x l data r₁ hins hx hphase₀ hr₁)
    · exact hdata T l data r hins hr

/-- An operation that is pushed. -/
theorem push_operations {v : Versions D} (hv : v.trx = db.trx) {T : Int} {x : MvccTrx}
    {op₀ : Operation} (hx : db.trx T = some x) (S : Int) (op : Operation) :
    (∃ y, (v.setTrx T (x.push op₀)).trx S = some y ∧ op ∈ y.operations) ↔
      (∃ y, db.trx S = some y ∧ op ∈ y.operations) ∨ (S = T ∧ op = op₀) := by
  constructor
  · rintro ⟨y, hy, hop⟩
    rcases Versions.setTrx_some.mp hy with ⟨rfl, rfl⟩ | ⟨-, hy'⟩
    · rcases List.mem_append.mp hop with hop | hop
      · exact Or.inl ⟨x, hx, hop⟩
      · exact Or.inr ⟨rfl, List.mem_singleton.mp hop⟩
    · rw [hv] at hy'
      exact Or.inl ⟨y, hy', hop⟩
  · rintro (⟨y, hy, hop⟩ | ⟨rfl, rfl⟩)
    · by_cases hS : S = T
      · subst hS
        obtain rfl := Option.some.inj (hx.symm.trans hy)
        exact ⟨_, Versions.setTrx_some.mpr (Or.inl ⟨rfl, rfl⟩), List.mem_append_left _ hop⟩
      · exact ⟨y, Versions.setTrx_some.mpr (Or.inr ⟨hS, by rw [hv]; exact hy⟩), hop⟩
    · exact ⟨_, Versions.setTrx_some.mpr (Or.inl ⟨rfl, rfl⟩), List.mem_append_right _ (by simp)⟩

/-- An INSERT adds its two entries. -/
theorem adds_insert {T : Int} {x : MvccTrx} {tid : TableId} {rid : RecordId} {data : D}
    (hx : db.trx T = some x) (hfree : db.row (tid, rid) = none) :
    Adds db [.insert (tid, rid) ⟨-T, maxTrxId, data⟩, .trx T (.insertRecord (tid, rid))]
      (fun S op => S = T ∧ op = ⟨.insert, tid, rid⟩)
      ((db.versions.setRow (tid, rid) (some ⟨-T, maxTrxId, data⟩)).setTrx T (x.push ⟨.insert, tid, rid⟩)) where
  -- the two entries are the record and the operation of the transaction
  entries S operation := by
    constructor
    · intro hmem
      rcases List.mem_cons.mp hmem with heq | hmem
      · cases heq
      · obtain ⟨rfl, rfl⟩ := LogEntry.trx.inj (List.mem_singleton.mp hmem)
        exact ⟨_, ⟨rfl, rfl⟩, rfl⟩
    · rintro ⟨op, ⟨rfl, rfl⟩, rfl⟩
      exact List.mem_cons_of_mem _ (List.mem_singleton.mpr rfl)
  operations := push_operations rfl hx
  head S l heq := by cases heq
  inserted S l := by
    rintro ⟨rfl, heq⟩
    obtain rfl := (Operation.mk.inj heq).2
    exact ⟨data, 0, rfl, rfl⟩
  -- the record in the log is the row
  data S l d r := by
    rintro ⟨i, hi, hi'⟩ hr
    have hi0 : i = 0 := by
      rcases i with _ | _ | i
      · rfl
      · cases hi
      · cases hi
    subst hi0
    obtain ⟨rfl, hr₀⟩ := LogEntry.insert.inj (Option.some.inj hi)
    rcases Versions.setRow_some.mp hr with ⟨-, hr'⟩ | ⟨hne, -⟩
    · obtain rfl := Option.some.inj hr'
      exact (Row.mk.inj hr₀).2.2
    · exact absurd rfl hne
  row l r hr := by
    rcases Versions.setRow_some.mp hr with ⟨rfl, -⟩ | ⟨-, hr'⟩
    · exact Or.inl hfree
    · exact Or.inr ⟨r, hr', rfl⟩

/-- One that is refused adds two that undo each other. -/
theorem adds_refused {T : Int} {tid : TableId} {rid : RecordId} {data : D} :
    Adds db [.insert (tid, rid) ⟨-T, maxTrxId, data⟩, .delete (tid, rid)] (fun _ _ => False) db.versions where
  entries S operation := by simp
  operations S op := (or_iff_left id).symm
  head S l heq := by cases heq
  inserted _ _ hfalse := hfalse.elim
  data S l d r := by
    rintro ⟨i, hi, hi'⟩ hr
    rcases i with _ | _ | i
    · cases hi'
    · cases hi
    · cases hi
  row l r hr := Or.inr ⟨r, hr, rfl⟩

/-- A DELETE adds its two entries. -/
theorem adds_delete {T : Int} {x : MvccTrx} {tid : TableId} {rid : RecordId} {r₀ : Row D}
    (hx : db.trx T = some x) (hr₀ : db.row (tid, rid) = some r₀) :
    Adds db [.update (tid, rid) { r₀ with endXid := -T }, .trx T (.deleteRecord (tid, rid))]
      (fun S op => S = T ∧ op = ⟨.delete, tid, rid⟩)
      ((db.versions.setRow (tid, rid) (some { r₀ with endXid := -T })).setTrx T (x.push ⟨.delete, tid, rid⟩)) where
  entries S operation := by
    constructor
    · intro hmem
      rcases List.mem_cons.mp hmem with heq | hmem
      · cases heq
      · obtain ⟨rfl, rfl⟩ := LogEntry.trx.inj (List.mem_singleton.mp hmem)
        exact ⟨_, ⟨rfl, rfl⟩, rfl⟩
    · rintro ⟨op, ⟨rfl, rfl⟩, rfl⟩
      exact List.mem_cons_of_mem _ (List.mem_singleton.mpr rfl)
  operations := push_operations rfl hx
  head S l heq := by cases heq
  inserted S l := by
    rintro ⟨-, heq⟩
    cases heq
  data S l d r := by
    rintro ⟨i, hi, hi'⟩ hr
    rcases i with _ | _ | i
    · cases hi
    · cases hi
    · cases hi
  row l r hr := by
    -- the end field changes, the data does not
    rcases Versions.setRow_some.mp hr with ⟨rfl, hr'⟩ | ⟨-, hr'⟩
    · obtain rfl := Option.some.inj hr'
      exact Or.inr ⟨r₀, hr₀, rfl⟩
    · exact Or.inr ⟨r, hr', rfl⟩

/-- A step of the kinds listed in `LoggedStep` adds to the book what it writes. -/
theorem LoggedStep.adds {a : Action D U} {es : List (LogEntry D)} {v' : Versions D}
    (h : LoggedStep db a es v') : ∃ N, Adds db es N v' := by
  cases h with
  | insert hx hphase hfree => exact ⟨_, adds_insert hx hfree⟩
  | refused hx hphase => exact ⟨_, adds_refused⟩
  | delete hx hphase hr₀ hw => exact ⟨_, adds_delete hx hr₀⟩
  | other _ hes hback hforth hdata =>
    -- the other steps log no operation
    have hnone : ∀ T operation, (.trx T operation : LogEntry D) ∉ es := by
      intro T operation hmem
      rcases hes with rfl | ⟨e, p, rfl, hp⟩
      · cases hmem
      · obtain rfl := List.mem_singleton.mp hmem
        cases hp
    refine ⟨fun _ _ => False, fun T operation => ?_, fun T op => ?_, fun T l hhead => ?_, fun _ _ hfalse =>
      hfalse.elim, fun T l d r hins _ => ?_, fun l r hr => Or.inr (hdata l r hr)⟩
    · exact iff_of_false (hnone T operation) fun ⟨_, hfalse, _⟩ => hfalse
    · constructor
      · rintro ⟨x', hx', hop⟩
        rcases hback T x' hx' with hnil | ⟨x, hx, hops⟩
        · rw [hnil] at hop
          cases hop
        · exact Or.inl ⟨x, hx, hops ▸ hop⟩
      · rintro (⟨x, hx, hop⟩ | hfalse)
        · obtain ⟨x', hx', hops⟩ := hforth T x hx
          exact ⟨x', hx', hops ▸ hop⟩
        · exact hfalse.elim
    · exact hnone T _ (List.mem_of_getElem? hhead)
    · obtain ⟨i, -, hi⟩ := hins
      exact absurd (List.mem_of_getElem? hi) (hnone T _)

/-- The COMMIT or ROLLBACK entry of a transaction that has worked off its operations. -/
theorem Logbook.ended {s : LoggedDatabase D U} (h : Logbook s) {T : Int} {operation : MvccTrxLogOperation}
    {ops : List Operation} {phase : Phase} (hx : s.db.trx T = some ⟨ops, [], phase⟩)
    (hor : (∃ c, phase = .committing c ∧ operation = .commit c) ∨ phase = .rollingBack ∧ operation = .rollback)
    (ended : Int → Bool) : Logbook { s with log := s.log ++ [.trx T operation], ended } := by
  -- the last entry of a transaction is no operation
  have hnot : ∀ (T' : Int) (op : Operation),
      .trx T' op.logged ∈ s.log ++ [.trx T operation] ↔ .trx T' op.logged ∈ s.log := by
    intro T' op
    rw [List.mem_append, List.mem_singleton]
    refine or_iff_left fun heq => ?_
    obtain ⟨-, heq⟩ := LogEntry.trx.inj heq
    obtain ⟨type, l⟩ := op
    rcases hor with ⟨c, -, rfl⟩ | ⟨-, rfl⟩ <;> cases type <;> cases heq
  refine ⟨h.inserts, h.unloaded, ?_, ?_, ?_, ?_, ?_⟩
  -- the commit in the log is the one in the phase of the transaction
  · intro T' c hmem
    rcases List.mem_append.mp hmem with hmem | hmem
    · exact h.commits T' c hmem
    · obtain ⟨rfl, rfl⟩ := LogEntry.trx.inj (List.mem_singleton.mp hmem)
      rcases hor with ⟨c', rfl, hc⟩ | ⟨-, hc⟩
      · obtain rfl := MvccTrxLogOperation.commit.inj hc
        exact ⟨ops, hx⟩
      · cases hc
  · intro T' hmem
    rcases List.mem_append.mp hmem with hmem | hmem
    · exact h.rollbacks T' hmem
    · obtain ⟨rfl, rfl⟩ := LogEntry.trx.inj (List.mem_singleton.mp hmem)
      rcases hor with ⟨c', rfl, hc⟩ | ⟨rfl, -⟩
      · cases hc
      · exact ⟨ops, hx⟩
  · intro T' op
    rw [hnot]
    exact h.operations T' op
  · intro T' x l hx' hop
    obtain ⟨data, hins⟩ := h.inserted T' x l hx' hop
    exact ⟨data, hins.append _⟩
  -- the new entry is at the head of no INSERT
  · intro T' x l data r hins hx' hphase hr
    have hhead : ([.trx T operation] : List (LogEntry D))[0]? ≠
        some (.trx T' (.insertRecord l)) := by
      intro heq
      obtain ⟨-, rfl⟩ := LogEntry.trx.inj (Option.some.inj heq)
      rcases hor with ⟨c', -, hc⟩ | ⟨-, hc⟩ <;> cases hc
    rcases hins.of_append hhead with hins | ⟨i, hi, hi'⟩
    · exact h.data T' x l data r hins hx' hphase hr
    · cases hi'

/-- **Step.** -/
theorem Logbook.step {s s' : LoggedDatabase D U} {a : LoggedAction D U} {rc : RC} (h : Logbook s)
    (hok : KeepsLogbook capacity s a) (hstep : s.step a = .ok (rc, s')) : Logbook s' := by
  rcases LoggedDatabase.step_cases hstep with
    ⟨b, db', rfl, hb, rfl⟩ | ⟨T, operation, ops, phase, hx, -, hor, rfl⟩
  · obtain ⟨hfit, ha, hkeeps⟩ := hok
    have hmarks := h.inserts.deletes.marks
    have hfresh : ∀ T x, s.db.trx T = some x → b = .start → T ≠ nextTrxId s.db.currentTrxId := by
      rintro T x hx rfl
      have hle : T ≤ s.db.currentTrxId := (hmarks.trx T x hx).le
      have hnext : nextTrxId s.db.currentTrxId = s.db.currentTrxId + 1 :=
        nextTrxId_eq hmarks.nonneg hkeeps.1
      omega
    obtain ⟨N, hadds⟩ := (Database.step_loggedStep ha hfresh hb).adds
    exact h.session ha hfresh hkeeps (Database.step_rowStep hb) hadds
  · refine h.ended hx ?_ _
    rcases hor with ⟨c, -, hcommit⟩ | ⟨-, hrollback⟩
    · exact Or.inl ⟨c, hcommit⟩
    · exact Or.inr hrollback

end Logbook

end Miniob.Trx
