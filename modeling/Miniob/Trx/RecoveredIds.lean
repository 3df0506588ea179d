/-
  The first identifiers after a restart.

  A commit takes an identifier of its own from the counter.  It is stored in the rows and in the
  COMMIT entry, behind the header, and recovery only looks at headers.  So recovery knows of a
  commit identifier only if a transaction that was started later has written something.
-/
import Miniob.Trx.InRange
import Miniob.Trx.Recover

namespace Miniob.Trx

open Miniob.Common Miniob.Db Miniob.Storage

variable {D U : Type} {capacity : TableId → Nat}

/-! ## Identifiers in the log -/

/-- The counter does not reach the identifier that stands for "never", and new rows go to the first
    free slots. -/
def KeepsLogged (capacity : TableId → Nat) (s : LoggedDatabase D U) (a : LoggedAction D U) : Prop :=
  LoggedDatabase.FirstFit capacity a ∧ match a with
    | .session b => CountsUp s.db b
    | _ => True

/-- The log holds no identifier that has not been handed out. -/
structure LogInRange (s : LoggedDatabase D U) : Prop where
  range : InRange s.db.versions
  lt : s.db.currentTrxId < maxTrxId
  /-- The identifiers in the headers of the entries. -/
  headers : ∀ T operation, .trx T operation ∈ s.log → 0 < T ∧ T ≤ s.db.currentTrxId
  /-- The identifiers of the commits. -/
  commits : ∀ T c, .trx T (.commit c) ∈ s.log → 0 < c ∧ c ≤ s.db.currentTrxId

section Step

theorem LogInRange.empty : LogInRange (LoggedDatabase.empty : LoggedDatabase D U) where
  range := InRange.empty
  lt := by
    show (0 : Int) < maxTrxId
    decide
  headers _ _ h := nomatch h
  commits _ _ h := nomatch h

/-- The counter stays below `maxTrxId`. -/
theorem currentTrxId_lt {db : Database D U} {a : Action D U} {v' : Versions D}
    (hnonneg : 0 ≤ db.currentTrxId) (hlt : db.currentTrxId < maxTrxId) (hok : CountsUp db a)
    (hstep : RowStep db a v') : v'.currentTrxId < maxTrxId := by
  cases hstep with
  | start =>
    show nextTrxId db.currentTrxId < maxTrxId
    rw [nextTrxId_eq hnonneg hok]
    exact hok
  | commit =>
    show nextTrxId db.currentTrxId < maxTrxId
    rw [nextTrxId_eq hnonneg hok]
    exact hok
  | _ => exact hlt

/-- **Step.** -/
theorem LogInRange.step {s s' : LoggedDatabase D U} {a : LoggedAction D U} {rc : RC}
    (h : LogInRange s) (hok : KeepsLogged capacity s a) (hstep : s.step a = .ok (rc, s')) :
    LogInRange s' := by
  rcases LoggedDatabase.step_cases hstep with
    ⟨b, db', rfl, hb, rfl⟩ | ⟨T, operation, ops, phase, hx, -, hor, rfl⟩
  · have hrow := Database.step_rowStep hb
    have hle := (trx_step h.range.signs.nonneg hok.2 hrow).1
    replace hle : s.db.currentTrxId ≤ db'.currentTrxId := hle
    refine ⟨h.range.step hok.2 hrow, currentTrxId_lt h.range.signs.nonneg h.lt hok.2 hrow, ?_, ?_⟩
    · intro T operation hmem
      rcases List.mem_append.mp hmem with hmem | hmem
      · have := h.headers T operation hmem
        exact ⟨this.1, Int.le_trans this.2 hle⟩
      · obtain ⟨⟨x, hx, -⟩, -⟩ := Database.trx_mem_logOf hok.1 hb hmem
        exact ⟨h.range.signs.pos T x hx, Int.le_trans (h.range.signs.le T x hx) hle⟩
    · intro T c hmem
      rcases List.mem_append.mp hmem with hmem | hmem
      · have := h.commits T c hmem
        exact ⟨this.1, Int.le_trans this.2 hle⟩
      · obtain ⟨-, ⟨l, hl⟩ | ⟨l, hl⟩⟩ := Database.trx_mem_logOf hok.1 hb hmem <;> cases hl
  · refine ⟨h.range, h.lt, ?_, ?_⟩
    · intro T' operation' hmem
      rcases List.mem_append.mp hmem with hmem | hmem
      · exact h.headers T' operation' hmem
      · obtain ⟨rfl, -⟩ := LogEntry.trx.inj (List.mem_singleton.mp hmem)
        exact ⟨h.range.signs.pos T' _ hx, h.range.signs.le T' _ hx⟩
    · intro T' c hmem
      rcases List.mem_append.mp hmem with hmem | hmem
      · exact h.commits T' c hmem
      · obtain ⟨rfl, rfl⟩ := LogEntry.trx.inj (List.mem_singleton.mp hmem)
        rcases hor with ⟨c', -, rfl, hc⟩ | ⟨-, -, hc⟩
        · obtain rfl := MvccTrxLogOperation.commit.inj hc
          exact ⟨h.range.signs.commitPos T' _ c hx rfl, h.range.commitLe T' _ c hx rfl⟩
        · cases hc

end Step

/-! ## Recovery of the complete log -/

/-- The identifier is that of a commit that the log has. -/
def Committed (log : List (LogEntry D)) (c : Int) : Prop := ∃ T, .trx T (.commit c) ∈ log

/-- The identifier is stored in a committed row. -/
def StoredId (log : List (LogEntry D)) (row : Loc → Option (Row D)) (x : Int) : Prop :=
  ∃ l r, row l = some r ∧ Committed log r.beginXid ∧
    (x = r.beginXid ∨ x = r.endXid ∧ Committed log x)

/-- Recovery succeeds, the next identifier is above all that are stored in committed rows, and whoever
    starts from then on sees the committed rows and none that has been deleted. -/
def RecoversFresh (capacity : TableId → Nat) (s : LoggedDatabase D U)
    (pages : PageId → PageImage (RecordPage D)) : Prop :=
  ∃ s', recover capacity (fun tid => (s.db.tables tid).isSome) s.log pages = .ok s' ∧
    (∀ x, StoredId s.log s'.row x → x < nextTrxId s'.currentTrxId) ∧
    ∀ l r, s'.row l = some r → Committed s.log r.beginXid →
      ∀ T, nextTrxId s'.currentTrxId ≤ T → T ≤ maxTrxId →
        (r.endXid = maxTrxId → Visible T r) ∧ (Committed s.log r.endXid → ¬ Visible T r)

/-- The stored rows, by page. -/
theorem Database.pages_row (db : Database D U) (l : Loc) :
    db.pages (pageOf l) l.2.slotNum = db.row l := by
  unfold Database.pages Database.row pageOf
  cases ht : db.tables l.1 with
  | none => rfl
  | some t => exact t.file.page_slot l.2

/-- A row whose identifiers are known to recovery. -/
theorem visible_of_fresh {r : Row D} {T : Int} (hpos : 0 < r.beginXid) (hle : r.beginXid ≤ T)
    (hmax : T ≤ maxTrxId) (hend : r.endXid = maxTrxId) : Visible T r := by
  refine visible_iff.mpr (Or.inl ⟨hpos, ?_, hle, ?_⟩)
  · rw [hend]
    decide
  · rw [hend]
    exact hmax

theorem recover_complete {s : LoggedDatabase D U}
    (hlog : s.Logged capacity) {pages : PageId → PageImage (RecordPage D)}
    (hdisk : Survives capacity s.log pages) :
    ∃ s', recover capacity (fun tid => (s.db.tables tid).isSome) s.log pages = .ok s' ∧
      s'.currentTrxId = s.log.foldl LogEntry.counter 0 ∧ s'.row = s.db.row := by
  obtain ⟨s', hrec, hcount, hrow⟩ := recover_current hdisk hlog.tables hlog.applyLog
  exact ⟨s', hrec, hcount, funext fun l => (hrow l).trans (s.db.pages_row l)⟩

/-- The counter after recovery is in range. -/
theorem LogInRange.nextTrxId {s : LoggedDatabase D U} (h : LogInRange s) {c : Int}
    (hcount : c = s.log.foldl LogEntry.counter 0) : nextTrxId c = c + 1 := by
  have hnonneg : 0 ≤ c := by
    rw [hcount]
    exact foldl_counter_le.mpr (Or.inl (Int.le_refl 0))
  have hlt : c < maxTrxId := by
    rw [hcount]
    by_contra hge
    rcases foldl_counter_le.mp (Int.not_lt.mp hge) with hzero | ⟨T, operation, hmem, hT⟩
    · exact absurd hzero (by decide)
    · have := (h.headers T operation hmem).2
      have := h.lt
      omega
  unfold maxTrxId at hlt
  exact int32_of_range (by omega) (by omega)

/-- **Headline.**  Recovery of the complete log hands out fresh identifiers just when the log holds, for
    each identifier stored in a committed row, a header with one that is at least as large. -/
theorem recovered_ids_fresh (capacity : TableId → Nat) (s : LoggedDatabase D U)
    (h : Reachable LoggedDatabase.step (KeepsLogged capacity) .empty s)
    (pages : PageId → PageImage (RecordPage D)) (hdisk : Survives capacity s.log pages) :
    RecoversFresh capacity s pages ↔ ∀ x, StoredId s.log s.db.row x →
      ∃ T operation, .trx T operation ∈ s.log ∧ x ≤ T := by
  have hrange : LogInRange s := h.invariant (I := LogInRange) LogInRange.empty
    fun _ _ _ _ hs hok hstep => hs.step hok hstep
  have hlog := LoggedDatabase.logged_of_reachable (fun _ _ hok => hok.1) h
  obtain ⟨s', hrec, hcount, hrow⟩ := recover_complete hlog hdisk
  have hnext := hrange.nextTrxId hcount
  have hpos : ∀ {c}, Committed s.log c → 0 < c := fun ⟨T, hmem⟩ => (hrange.commits T _ hmem).1
  -- the next identifier is above `x` just when some header is not below it
  have hfresh : ∀ {x}, 0 < x → (x < nextTrxId s'.currentTrxId ↔
      ∃ T operation, .trx T operation ∈ s.log ∧ x ≤ T) := by
    intro x hx
    have hfold : x ≤ s'.currentTrxId ↔ x ≤ 0 ∨ ∃ T operation, .trx T operation ∈ s.log ∧ x ≤ T := by
      rw [hcount]
      exact foldl_counter_le
    rw [hnext, Int.lt_add_one_iff, hfold]
    exact or_iff_right (by omega)
  have hposId : ∀ {x}, StoredId s.log s.db.row x → 0 < x := by
    rintro x ⟨l, r, -, hb, rfl | ⟨-, hc⟩⟩
    · exact hpos hb
    · exact hpos hc
  constructor
  · rintro ⟨s₁, hrec₁, hids, -⟩ x hx
    obtain rfl := Except.ok.inj (hrec.symm.trans hrec₁)
    rw [hrow] at hids
    exact (hfresh (hposId hx)).mp (hids x hx)
  · intro hheaders
    have hids : ∀ x, StoredId s.log s'.row x → x < nextTrxId s'.currentTrxId := by
      intro x hx
      rw [hrow] at hx
      exact (hfresh (hposId hx)).mpr (hheaders x hx)
    refine ⟨s', hrec, hids, fun l r hr hb T hT hmax => ⟨fun hend => ?_, fun hend => ?_⟩⟩
    · have hlt := hids r.beginXid ⟨l, r, hr, hb, Or.inl rfl⟩
      exact visible_of_fresh (hpos hb) (by omega) hmax hend
    · have hlt := hids r.endXid ⟨l, r, hr, hb, Or.inr ⟨rfl, hend⟩⟩
      have hb' := hpos hb
      have hend' := hpos hend
      rw [visible_iff]
      omega

/-! ## Examples -/

theorem firstSlots_firstFit : (firstSlots : Placement D).FirstFit 3 := by
  intro n f rid h
  have h0 : f.page 1 (0 : Nat) = f.row ⟨⟨1, 0⟩, by decide, by decide⟩ := dif_pos (by decide)
  have h1 : f.page 1 (1 : Nat) = f.row ⟨⟨1, 1⟩, by decide, by decide⟩ := dif_pos (by decide)
  have h2 : f.page 1 (2 : Nat) = f.row ⟨⟨1, 2⟩, by decide, by decide⟩ := dif_pos (by decide)
  have hfree : (f.page 1).firstFree 3 = (([0, 1, 2] : List Nat).find? fun s : Nat =>
    (f.page 1 s).isNone).map Int.ofNat := rfl
  unfold firstSlots at h
  dsimp only at h
  simp only [List.find?_cons, List.find?_nil, h0, h1, h2] at h hfree
  cases hr0 : (f.row ⟨⟨1, 0⟩, by decide, by decide⟩).isNone with
  | true =>
    rw [hr0] at h hfree
    obtain rfl := Except.ok.inj h
    exact hfree
  | false =>
    rw [hr0] at h hfree
    cases hr1 : (f.row ⟨⟨1, 1⟩, by decide, by decide⟩).isNone with
    | true =>
      rw [hr1] at h hfree
      obtain rfl := Except.ok.inj h
      exact hfree
    | false =>
      rw [hr1] at h hfree
      cases hr2 : (f.row ⟨⟨1, 2⟩, by decide, by decide⟩).isNone with
      | true =>
        rw [hr2] at h hfree
        obtain rfl := Except.ok.inj h
        exact hfree
      | false =>
        rw [hr2] at h
        cases h

/-- The pages of an empty disk. -/
def emptyDisk : PageId → PageImage (RecordPage Int) := fun _ => ⟨0, fun _ => none⟩

theorem survives_emptyDisk (capacity : TableId → Nat) (log : List (LogEntry Int)) :
    Survives capacity log emptyDisk :=
  fun _ => ⟨Nat.zero_le _, fun _ => fun _ => none, rfl, rfl⟩

/-- Transaction 1 inserts a row and commits with 2, and transaction 3 inserts another one. -/
theorem recovered_ids_fresh_two : ∃ s : LoggedDatabase Int Int,
    s.db.row (0, ⟨⟨1, 0⟩, by decide, by decide⟩) = some ⟨2, maxTrxId, 7⟩ ∧
      s.db.row (0, ⟨⟨1, 1⟩, by decide, by decide⟩) = some ⟨-3, maxTrxId, 8⟩ ∧
      RecoversFresh (fun _ => 3) s emptyDisk := by
  have h₀ : Reachable LoggedDatabase.step (KeepsLogged fun _ => 3)
    (.empty : LoggedDatabase Int Int) .empty := .init
  have h₁ := h₀.next (.session (.createTable 0)) ⟨trivial, trivial⟩ rfl
  have h₂ := h₁.next (.session .start) ⟨trivial, by show (0 : Int) + 1 < maxTrxId; decide⟩ rfl
  have h₃ := h₂.next (.session (.insertRecord 1 0 7 firstSlots)) ⟨firstSlots_firstFit, trivial⟩ rfl
  have h₄ := h₃.next (.session (.commit 1)) ⟨trivial, by show (1 : Int) + 1 < maxTrxId; decide⟩ rfl
  have h₅ := h₄.next (.session (.commitOperation 1)) ⟨trivial, trivial⟩ rfl
  have h₆ := h₅.next (.logCommit 1) ⟨trivial, trivial⟩ rfl
  have h₇ := h₆.next (.session .start) ⟨trivial, by show (2 : Int) + 1 < maxTrxId; decide⟩ rfl
  have h₈ := h₇.next (.session (.insertRecord 3 0 8 firstSlots)) ⟨firstSlots_firstFit, trivial⟩ rfl
  refine ⟨_, rfl, rfl, (recovered_ids_fresh (fun _ => 3) _ h₈ emptyDisk (survives_emptyDisk _ _)).mpr ?_⟩
  have hlog : ∀ log : List (LogEntry Int), log = [.insert (0, ⟨⟨1, 0⟩, by decide, by decide⟩) ⟨-1, maxTrxId, 7⟩,
      .trx 1 (.insertRecord (0, ⟨⟨1, 0⟩, by decide, by decide⟩)),
      .update (0, ⟨⟨1, 0⟩, by decide, by decide⟩) ⟨2, maxTrxId, 7⟩, .trx 1 (.commit 2),
      .insert (0, ⟨⟨1, 1⟩, by decide, by decide⟩) ⟨-3, maxTrxId, 8⟩,
      .trx 3 (.insertRecord (0, ⟨⟨1, 1⟩, by decide, by decide⟩))] →
      ∀ {row x}, StoredId log row x → ∃ T operation, .trx T operation ∈ log ∧ x ≤ T := by
    rintro log rfl row x ⟨l, r, -, hb, hx⟩
    refine ⟨3, _, List.mem_of_getElem? (i := 5) rfl, ?_⟩
    obtain ⟨T, hmem⟩ : Committed _ x := by
      rcases hx with rfl | ⟨-, hc⟩
      · exact hb
      · exact hc
    simp only [List.mem_cons, LogEntry.trx.injEq, MvccTrxLogOperation.commit.injEq, reduceCtorEq,
      and_false, false_or, or_false, List.not_mem_nil] at hmem
    omega
  exact fun x hx => hlog _ rfl hx

/-- Transaction 1 inserts a row and commits with 2, transaction 3 deletes it and commits with 4: the
    next transaction is 4, and sees the row. -/
theorem recovered_id_reused : ¬ ∀ (s : LoggedDatabase Int Int) (pages : PageId → PageImage (RecordPage Int)),
    Reachable LoggedDatabase.step (KeepsLogged fun _ => 3) .empty s →
      Survives (fun _ => 3) s.log pages → RecoversFresh (fun _ => 3) s pages := by
  intro h
  have h₀ : Reachable LoggedDatabase.step (KeepsLogged fun _ => 3)
    (.empty : LoggedDatabase Int Int) .empty := .init
  have h₁ := h₀.next (.session (.createTable 0)) ⟨trivial, trivial⟩ rfl
  have h₂ := h₁.next (.session .start) ⟨trivial, by show (0 : Int) + 1 < maxTrxId; decide⟩ rfl
  have h₃ := h₂.next (.session (.insertRecord 1 0 7 firstSlots)) ⟨firstSlots_firstFit, trivial⟩ rfl
  have h₄ := h₃.next (.session (.commit 1)) ⟨trivial, by show (1 : Int) + 1 < maxTrxId; decide⟩ rfl
  have h₅ := h₄.next (.session (.commitOperation 1)) ⟨trivial, trivial⟩ rfl
  have h₆ := h₅.next (.logCommit 1) ⟨trivial, trivial⟩ rfl
  have h₇ := h₆.next (.session .start) ⟨trivial, by show (2 : Int) + 1 < maxTrxId; decide⟩ rfl
  have h₈ := h₇.next (.session (.deleteRecord 3 0 ⟨⟨1, 0⟩, by decide, by decide⟩))
    ⟨trivial, trivial⟩ rfl
  have h₉ := h₈.next (.session (.commit 3)) ⟨trivial, by show (3 : Int) + 1 < maxTrxId; decide⟩ rfl
  have h₁₀ := h₉.next (.session (.commitOperation 3)) ⟨trivial, trivial⟩ rfl
  have h₁₁ := h₁₀.next (.logCommit 3) ⟨trivial, trivial⟩ rfl
  obtain ⟨s', hrec, -, hvisible⟩ := h _ emptyDisk h₁₁ (survives_emptyDisk _ _)
  have hout : some s' = some _ := congrArg Except.toOption hrec.symm
  obtain rfl := Option.some.inj hout
  have hdeleted := (hvisible (0, ⟨⟨1, 0⟩, by decide, by decide⟩) ⟨2, 4, 7⟩ rfl
    ⟨1, List.mem_of_getElem? (i := 3) rfl⟩ 4 (by decide) (by decide)).2
    ⟨3, List.mem_of_getElem? (i := 7) rfl⟩
  exact hdeleted (by decide)

end Miniob.Trx
