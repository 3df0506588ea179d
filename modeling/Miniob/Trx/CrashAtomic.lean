/-
  A crash in the middle of transactions.

  Recovery does the entries over, also those of transactions without a COMMIT entry, and rolls none
  of them back.  So it leads to what transactions need just when there is nothing to be rolled back:
  every transaction that has changed a row has ended (`Finished`).  The rest is a matter of the
  identifiers, which recovery takes from the headers (`Known`).

  `take_log` says what prefixes a log has: the logs of earlier states, and those that end between
  the two entries of a change.
-/
import Miniob.Trx.Logbook

namespace Miniob.Trx

open Miniob.Common Miniob.Db Miniob.Storage

variable {D U : Type} {capacity : TableId → Nat}

/-! ## What the log says -/

/-- The COMMIT entry of the transaction is in the log. -/
def CommittedTrx (log : List (LogEntry D)) (T : Int) : Prop := ∃ c, .trx T (.commit c) ∈ log

/-- The transaction has deleted the row. -/
def DeletedRow (log : List (LogEntry D)) (T : Int) (l : Loc) : Prop :=
  .trx T (.deleteRecord l) ∈ log

/-- The entry puts the mark of a transaction into a row. -/
def LogEntry.LeavesMark : LogEntry D → Prop
  | .insert _ r => r.beginXid < 0
  | .update _ r => r.endXid < 0
  | .delete _ => False
  | .trx .. => False

/-- Every transaction in the log has its COMMIT or ROLLBACK entry, and the log does not end between the
    two entries of a change. -/
def Finished (log : List (LogEntry D)) : Prop :=
  (∀ T operation, .trx T operation ∈ log → CommittedTrx log T ∨ .trx T .rollback ∈ log) ∧
    ∀ e, log.getLast? = some e → ¬ e.LeavesMark

/-- The commit identifiers are ones that the headers allow for: with an INSERT the identifier is that
    of the next transaction at most, with a DELETE it is below that. -/
def Known (log : List (LogEntry D)) : Prop :=
  ∀ T c, .trx T (.commit c) ∈ log →
    (∀ l, .trx T (.insertRecord l) ∈ log → ∃ S operation, .trx S operation ∈ log ∧ c ≤ S + 1) ∧
    (∀ l, .trx T (.deleteRecord l) ∈ log → ∃ S operation, .trx S operation ∈ log ∧ c ≤ S)

/-- Recovery succeeds.  New transactions see what committed transactions have inserted, without what
    committed transactions have deleted, and nothing else; no hidden field is negative. -/
def CrashAtomic (capacity : TableId → Nat) (opened : TableId → Bool) (log : List (LogEntry D))
    (pages : PageId → PageImage (RecordPage D)) : Prop :=
  ∃ s, recover capacity opened log pages = .ok s ∧
    (∀ S, nextTrxId s.currentTrxId ≤ S → S ≤ maxTrxId → ∀ l data,
      (∃ r, s.row l = some r ∧ r.data = data ∧ Visible S r) ↔
        (∃ T, CommittedTrx log T ∧ Inserted log T l data) ∧
          ¬ ∃ T, CommittedTrx log T ∧ DeletedRow log T l) ∧
    ∀ l r, s.row l = some r → 0 ≤ r.beginXid ∧ 0 ≤ r.endXid

/-! ## Prefixes -/

section Prefix

variable {s s' : LoggedDatabase D U}

theorem KeepsLogbook.logged {a : LoggedAction D U} (h : KeepsLogbook capacity s a) :
    KeepsLogged capacity s a := by
  refine ⟨h.1, ?_⟩
  cases a with
  | session b => exact h.2.2.1.countsUp
  | logCommit T => trivial
  | logRollback T => trivial

theorem logbook_of_reachable (h : Reachable LoggedDatabase.step (KeepsLogbook capacity) .empty s) :
    Logbook s :=
  h.invariant (I := Logbook) Logbook.empty fun _ _ _ _ hs hok hstep => hs.step hok hstep

/-- The first of two entries leaves a mark. -/
theorem LoggedStep.take_cases {db : Database D U} {a : Action D U} {es : List (LogEntry D)}
    {v' : Versions D} (hpos : ∀ T x, db.trx T = some x → 0 < T) (h : LoggedStep db a es v') {k : Nat}
    (hk : 0 < k) (hlt : k < es.length) : ∃ e, es.take k = [e] ∧ e.LeavesMark := by
  cases h with
  | @insert T x tid rid data p hx | @refused T x tid rid data p hx
  | @delete T x tid rid r hx =>
    obtain rfl : k = 1 := by
      simp only [List.length_cons, List.length_nil] at hlt
      omega
    have hT := hpos T x hx
    refine ⟨_, rfl, ?_⟩
    show -T < 0
    omega
  | other _ hes =>
    rcases hes with rfl | ⟨e, p, rfl, -⟩
    · exact absurd hlt (Nat.not_lt_zero k)
    · simp only [List.length_cons, List.length_nil] at hlt
      omega

/-- **Run.**  A prefix of the log is the log of an earlier state, or it ends between the two entries of
    a change. -/
theorem take_log (h : Reachable LoggedDatabase.step (KeepsLogbook capacity) .empty s) (n : Nat) :
    ∃ s₁ : LoggedDatabase D U, Reachable LoggedDatabase.step (KeepsLogbook capacity) .empty s₁ ∧
      (s.log.take n = s₁.log ∨ ∃ e, s.log.take n = s₁.log ++ [e] ∧ e.LeavesMark) := by
  -- induction on the run: a cut before the entries of the last step was a cut of the run before it
  induction h with
  | init => exact ⟨.empty, .init, Or.inl List.take_nil⟩
  | @step s s' a rc hreach hok hstep ih =>
    have hnew : ∀ es, s'.log = s.log ++ es →
        (∀ k, 0 < k → k < es.length → ∃ e, es.take k = [e] ∧ e.LeavesMark) →
        ∃ s₁ : LoggedDatabase D U, Reachable LoggedDatabase.step (KeepsLogbook capacity) .empty s₁ ∧
          (s'.log.take n = s₁.log ∨ ∃ e, s'.log.take n = s₁.log ++ [e] ∧ e.LeavesMark) := by
      intro es hlog hcut
      rcases Nat.lt_or_ge s.log.length n with hlt | hge
      · rcases Nat.lt_or_ge (n - s.log.length) es.length with hin | hbehind
        · -- the cut is inside the new entries
          obtain ⟨e, htake, hmark⟩ := hcut (n - s.log.length) (by omega) hin
          refine ⟨s, hreach, Or.inr ⟨e, ?_, hmark⟩⟩
          rw [hlog, List.take_append, List.take_of_length_le (by omega), htake]
        · refine ⟨s', .step hreach hok hstep, Or.inl (List.take_of_length_le ?_)⟩
          rw [hlog, List.length_append]
          omega
      · obtain ⟨s₁, hreach₁, hor⟩ := ih
        rw [hlog, List.take_append_of_le_length hge]
        exact ⟨s₁, hreach₁, hor⟩
    rcases LoggedDatabase.step_cases hstep with
      ⟨b, db', rfl, hb, rfl⟩ | ⟨T, operation, ops, phase, -, -, -, rfl⟩
    -- a step of a session writes its entries at once; only an INSERT that fails has two of them
    · refine hnew _ rfl fun k hk hlt => ?_
      have hmarks := (logbook_of_reachable hreach).inserts.deletes.marks
      have hfresh : ∀ T x, s.db.trx T = some x → b = .start →
          T ≠ nextTrxId s.db.currentTrxId := by
        rintro T x hx rfl
        have hle : T ≤ s.db.currentTrxId := (hmarks.trx T x hx).le
        have hnext : nextTrxId s.db.currentTrxId = s.db.currentTrxId + 1 :=
          nextTrxId_eq hmarks.nonneg hok.2.2.1
        omega
      exact (Database.step_loggedStep hok.2.1 hfresh hb).take_cases
        (fun T x hx => (hmarks.trx T x hx).pos) hk hlt
    -- the entry that ends a transaction is a single one
    · refine hnew _ rfl fun k hk hlt => ?_
      simp only [List.length_cons, List.length_nil] at hlt
      omega

/-- A prefix in which everything is finished is the log of an earlier state. -/
theorem take_log_finished (h : Reachable LoggedDatabase.step (KeepsLogbook capacity) .empty s)
    {n : Nat} (hfin : Finished (s.log.take n)) :
    ∃ s₁ : LoggedDatabase D U, Reachable LoggedDatabase.step (KeepsLogbook capacity) .empty s₁ ∧
      s.log.take n = s₁.log := by
  obtain ⟨s₁, h₁, heq | ⟨e, heq, hmark⟩⟩ := take_log h n
  · exact ⟨s₁, h₁, heq⟩
  · refine absurd hmark (hfin.2 e ?_)
    rw [heq]
    exact List.getLast?_concat ..

end Prefix

/-! ## What a finished log leads to -/

section Finished

variable {s : LoggedDatabase D U}

/-- A transaction that has operations and does not roll back has committed. -/
theorem Logbook.committed (h : Logbook s) (hfin : Finished s.log) {T : Int} {x : MvccTrx}
    {op : Operation} (hx : s.db.trx T = some x) (hop : op ∈ x.operations)
    (hphase : x.phase ≠ .rollingBack) : CommittedTrx s.log T := by
  rcases hfin.1 T _ ((h.operations T op).mpr ⟨x, hx, hop⟩) with hcommit | hrollback
  · exact hcommit
  · obtain ⟨ops, hx'⟩ := h.rollbacks T hrollback
    obtain rfl := Option.some.inj (hx.symm.trans hx')
    exact absurd rfl hphase

/-- Nothing is left to be worked off. -/
theorem Logbook.pending_eq_nil (h : Logbook s) (hfin : Finished s.log) {T : Int} {x : MvccTrx}
    (hx : s.db.trx T = some x) : x.pending = [] := by
  cases hpending : x.pending with
  | nil => rfl
  | cons op pending =>
    have hop : op ∈ x.operations :=
      h.inserts.deletes.sub T x op hx (hpending ▸ List.mem_cons_self ..)
    rcases hfin.1 T _ ((h.operations T op).mpr ⟨x, hx, hop⟩) with ⟨c, hcommit⟩ | hrollback
    · obtain ⟨ops, hx'⟩ := h.commits T c hcommit
      obtain rfl := Option.some.inj (hx.symm.trans hx')
      cases hpending
    · obtain ⟨ops, hx'⟩ := h.rollbacks T hrollback
      obtain rfl := Option.some.inj (hx.symm.trans hx')
      cases hpending

theorem Logbook.unlocked (h : Logbook s) (hfin : Finished s.log) {l : Loc} {r : Row D}
    (hr : s.db.row l = some r) : 0 < r.beginXid ∧ 0 < r.endXid := by
  have hdeletes := h.inserts.deletes
  have hb : 0 ≤ r.beginXid := by
    by_contra hneg
    obtain ⟨x, hx, hop⟩ := hdeletes.marks.owner l r hr (by omega)
    rw [h.pending_eq_nil hfin hx] at hop
    cases hop
  have he : 0 ≤ r.endXid := by
    by_contra hneg
    obtain ⟨x, hx, hop⟩ := hdeletes.ended l r hr (by omega)
    rw [h.pending_eq_nil hfin hx] at hop
    cases hop
  have hb0 := h.unloaded l r hr
  have he0 : r.endXid ≠ 0 := fun hzero => hb0 ((hdeletes.unset l r hr).mpr hzero)
  omega

/-- What a new transaction sees. -/
theorem Logbook.visible_iff (h : Logbook s) (hfin : Finished s.log) {c S : Int}
    (hc : ∀ T operation, .trx T operation ∈ s.log → T ≤ c) (hknown : Known s.log) (hS : c + 1 ≤ S)
    (hmax : S ≤ maxTrxId) (l : Loc) (data : D) :
    (∃ r, s.db.row l = some r ∧ r.data = data ∧ Visible S r) ↔
      (∃ T, CommittedTrx s.log T ∧ Inserted s.log T l data) ∧
        ¬ ∃ T, CommittedTrx s.log T ∧ DeletedRow s.log T l := by
  have hinserts := h.inserts
  have hdeletes := hinserts.deletes
  -- the end field of a row that a committed transaction has deleted
  have hend : ∀ {T r}, CommittedTrx s.log T → DeletedRow s.log T l → s.db.row l = some r →
      r.endXid < S := by
    rintro T r ⟨k, hcommit⟩ hdel hr
    obtain ⟨ops, hx⟩ := h.commits T k hcommit
    obtain ⟨x, hx', hop⟩ := (h.operations T ⟨.delete, l⟩).mp hdel
    obtain rfl := Option.some.inj (hx.symm.trans hx')
    obtain ⟨S₀, operation, hhead, hle⟩ := (hknown T k hcommit).2 l hdel
    have hS₀ := hc S₀ operation hhead
    obtain ⟨-, -, ⟨hnil, -⟩ | hphase⟩ := hdeletes.endXid_eq hx nofun hop hr
    · cases hnil
    · obtain rfl : k = r.endXid := Phase.committing.inj hphase
      omega
  constructor
  · rintro ⟨r, hr, rfl, hvisible⟩
    obtain ⟨hb, he⟩ := h.unlocked hfin hr
    have hrange : r.beginXid ≤ S ∧ S ≤ r.endXid := by
      rw [Trx.visible_iff] at hvisible
      omega
    constructor
    · obtain ⟨T, x, hx, hphase, hop⟩ := hinserts.created l r hr hb
      have hroll : x.phase ≠ .rollingBack := by
        rw [hphase]
        nofun
      obtain ⟨data, hins⟩ := h.inserted T x l hx hop
      refine ⟨T, h.committed hfin hx hop hroll, ?_⟩
      rw [h.data T x l data r hins hx hroll hr]
      exact hins
    · rintro ⟨T, hcommit, hdel⟩
      have := hend hcommit hdel hr
      omega
  · rintro ⟨⟨T, ⟨k, hcommit⟩, hins⟩, hnot⟩
    obtain ⟨ops, hx⟩ := h.commits T k hcommit
    have hentry : .trx T (.insertRecord l) ∈ s.log := by
      obtain ⟨i, -, hi⟩ := hins
      exact List.mem_of_getElem? hi
    obtain ⟨x, hx', hop⟩ := (h.operations T ⟨.insert, l⟩).mp hentry
    obtain rfl := Option.some.inj (hx.symm.trans hx')
    obtain ⟨r, hr, ⟨hnil, -⟩ | hphase⟩ := hinserts.inserted T _ l hx nofun hop
    · cases hnil
    · obtain rfl : k = r.beginXid := Phase.committing.inj hphase
      obtain ⟨S₀, operation, hhead, hle⟩ := (hknown T _ hcommit).1 l hentry
      have hS₀ := hc S₀ operation hhead
      obtain ⟨hb, he⟩ := h.unlocked hfin hr
      -- nobody has ended the row
      have hopen : r.endXid = maxTrxId := by
        rcases hdeletes.stamped l r hr he with hmax | ⟨T', x', hx', hphase', hop'⟩
        · exact hmax
        · refine absurd ⟨T', h.committed hfin hx' hop' ?_, ?_⟩ hnot
          · rw [hphase']
            nofun
          · exact (h.operations T' ⟨.delete, l⟩).mpr ⟨x', hx', hop'⟩
      exact ⟨r, hr, h.data T _ l data r hins hx nofun hr, visible_of_fresh hb (by omega) hmax hopen⟩

end Finished

/-- **Headline.**  In a run of transactions, recovery of a prefix of the log is atomic where all
    transactions in it have ended and the headers allow for their commit identifiers. -/
theorem crash_atomic (capacity : TableId → Nat) (s : LoggedDatabase D U)
    (h : Reachable LoggedDatabase.step (KeepsLogbook capacity) .empty s) (n : Nat)
    (pages : PageId → PageImage (RecordPage D)) (hdisk : Survives capacity (s.log.take n) pages)
    (hfin : Finished (s.log.take n)) (hknown : Known (s.log.take n)) :
    CrashAtomic capacity (fun tid => (s.db.tables tid).isSome) (s.log.take n) pages := by
  have hlogged := LoggedDatabase.logged_of_reachable (fun _ _ hok => hok.1) h
  obtain ⟨s₁, h₁, heq⟩ := take_log_finished h hfin
  have hopened : ∀ e ∈ s₁.log, ∀ tid, e.table = some tid → (s.db.tables tid).isSome := by
    intro e he
    rw [← heq] at he
    exact hlogged.tables e (List.mem_of_mem_take he)
  rw [heq] at hdisk hfin hknown ⊢
  have hbook := logbook_of_reachable h₁
  have hrange : LogInRange s₁ := (h₁.mono fun _ _ hok => hok.logged).invariant (I := LogInRange)
    LogInRange.empty fun _ _ _ _ hs hok hstep => hs.step hok hstep
  have hlogged₁ := LoggedDatabase.logged_of_reachable (fun _ _ hok => hok.1) h₁
  obtain ⟨s', hrec, hcount, hrow⟩ := recover_current hdisk hopened hlogged₁.applyLog
  have hrows : s'.row = s₁.db.row := funext fun l => (hrow l).trans (s₁.db.pages_row l)
  have hheads : ∀ T operation, .trx T operation ∈ s₁.log → T ≤ s'.currentTrxId := by
    intro T operation hmem
    rw [hcount]
    exact foldl_counter_le.mpr (Or.inr ⟨T, operation, hmem, Int.le_refl T⟩)
  have hnext := hrange.nextTrxId hcount
  refine ⟨s', hrec, ?_, ?_⟩
  · intro S hS hmax l data
    rw [hrows]
    rw [hnext] at hS
    exact hbook.visible_iff hfin hheads hknown hS hmax l data
  · intro l r hr
    rw [hrows] at hr
    obtain ⟨hb, he⟩ := hbook.unlocked hfin hr
    exact ⟨Int.le_of_lt hb, Int.le_of_lt he⟩

/-! ## Examples -/

/-- Transaction 1 inserts a row and commits with 2; the crash loses what transaction 3 inserts. -/
theorem crash_atomic_two : ∃ s : LoggedDatabase Int Int, s.log.length = 6 ∧
    CrashAtomic (fun _ => 3) (fun tid => (s.db.tables tid).isSome) (s.log.take 4) emptyDisk := by
  have h₀ : Reachable LoggedDatabase.step (KeepsLogbook fun _ => 3)
    (.empty : LoggedDatabase Int Int) .empty := .init
  have h₁ := h₀.next (.session (.createTable 0)) ⟨trivial, trivial, trivial, trivial⟩ rfl
  have h₂ := h₁.next (.session .start)
    ⟨trivial, trivial, by show (0 : Int) + 1 < maxTrxId; decide, trivial⟩ rfl
  have h₃ := h₂.next (.session (.insertRecord 1 0 7 firstSlots))
    ⟨firstSlots_firstFit, trivial, trivial, trivial⟩ rfl
  have h₄ := h₃.next (.session (.commit 1))
    ⟨trivial, trivial, by show (1 : Int) + 1 < maxTrxId; decide, trivial⟩ rfl
  have h₅ := h₄.next (.session (.commitOperation 1)) ⟨trivial, trivial, trivial, trivial⟩ rfl
  have h₆ := h₅.next (.logCommit 1) ⟨trivial, trivial⟩ rfl
  have h₇ := h₆.next (.session .start)
    ⟨trivial, trivial, by show (2 : Int) + 1 < maxTrxId; decide, trivial⟩ rfl
  have h₈ := h₇.next (.session (.insertRecord 3 0 8 firstSlots))
    ⟨firstSlots_firstFit, trivial, trivial, trivial⟩ rfl
  have hlog : ∀ log : List (LogEntry Int), log = [.insert (0, ⟨⟨1, 0⟩, by decide, by decide⟩)
      ⟨-1, maxTrxId, 7⟩, .trx 1 (.insertRecord (0, ⟨⟨1, 0⟩, by decide, by decide⟩)),
      .update (0, ⟨⟨1, 0⟩, by decide, by decide⟩) ⟨2, maxTrxId, 7⟩, .trx 1 (.commit 2)] →
      Finished log ∧ Known log := by
    rintro log rfl
    refine ⟨⟨fun T operation hmem => ?_, fun e he => ?_⟩, fun T c hmem => ?_⟩
    · simp only [List.mem_cons, LogEntry.trx.injEq, reduceCtorEq, false_or, List.not_mem_nil,
        or_false] at hmem
      obtain rfl : T = 1 := by omega
      exact Or.inl ⟨2, List.mem_of_getElem? (i := 3) rfl⟩
    · obtain rfl := Option.some.inj he
      exact id
    · simp only [List.mem_cons, LogEntry.trx.injEq, MvccTrxLogOperation.commit.injEq, reduceCtorEq,
        and_false, false_or, List.not_mem_nil, or_false] at hmem
      obtain ⟨rfl, rfl⟩ := hmem
      refine ⟨fun l _ => ⟨1, _, List.mem_of_getElem? (i := 3) rfl, by decide⟩, fun l hdel => ?_⟩
      simp at hdel
  obtain ⟨hfin, hknown⟩ := hlog _ rfl
  exact ⟨_, rfl, crash_atomic (fun _ => 3) _ h₈ 4 emptyDisk (survives_emptyDisk _ _) hfin hknown⟩

/-- Transaction 1 inserts a row, and then the machine crashes: the row stays locked. -/
theorem unfinished_stays_locked : ¬ ∀ (s : LoggedDatabase Int Int) (n : Nat)
    (pages : PageId → PageImage (RecordPage Int)),
    Reachable LoggedDatabase.step (KeepsLogbook fun _ => 3) .empty s →
      Survives (fun _ => 3) (s.log.take n) pages →
        CrashAtomic (fun _ => 3) (fun tid => (s.db.tables tid).isSome) (s.log.take n) pages := by
  intro h
  have h₀ : Reachable LoggedDatabase.step (KeepsLogbook fun _ => 3)
    (.empty : LoggedDatabase Int Int) .empty := .init
  have h₁ := h₀.next (.session (.createTable 0)) ⟨trivial, trivial, trivial, trivial⟩ rfl
  have h₂ := h₁.next (.session .start)
    ⟨trivial, trivial, by show (0 : Int) + 1 < maxTrxId; decide, trivial⟩ rfl
  have h₃ := h₂.next (.session (.insertRecord 1 0 7 firstSlots))
    ⟨firstSlots_firstFit, trivial, trivial, trivial⟩ rfl
  obtain ⟨s', hrec, -, hunlocked⟩ := h _ 2 emptyDisk h₃ (survives_emptyDisk _ _)
  have hout : some s' = some _ := congrArg Except.toOption hrec.symm
  obtain rfl := Option.some.inj hout
  exact absurd (hunlocked (0, ⟨⟨1, 0⟩, by decide, by decide⟩) ⟨-1, maxTrxId, 7⟩ rfl).1 (by decide)

end Miniob.Trx
