/-
  Sessions and their transactions (src/observer/session/session.cpp).

  A session has one `MvccTrx`, which it creates when it is first asked for and starts anew after each
  commit or rollback.  Sessions come and go: the destructor of a session hands its transaction to
  `MvccTrxKit::destroy_trx`, which takes it off the list and deletes it.  `~MvccTrx` is empty, so the
  operations that nobody has committed or rolled back are forgotten while their rows stay marked.

  `Server` is the machine of all sessions over one database.  A session runs in one thread: it is not
  destroyed in the middle of a commit or of a rollback.
-/
import Miniob.Trx.Marks

namespace Miniob.Trx

open Miniob.Common Miniob.Db Miniob.Storage

variable {D U : Type}

/-! ## Rows with an end mark -/

/-- A negative end field belongs to a pending DELETE. -/
def Ended (v : Versions D) : Prop :=
  ∀ l r, v.row l = some r → r.endXid < 0 →
    ∃ x, v.trx (-r.endXid) = some x ∧ ⟨.delete, l⟩ ∈ x.pending

section Ended

variable {db : Database D U}

/-- The pending operations of a transaction change, and the row at `l` with them. -/
theorem Ended.change (h : Ended db.versions) {T : Int} {x x' : MvccTrx} {l : Loc}
    {r' : Option (Row D)} (hx : db.trx T = some x)
    (hrow : ∀ r, r' = some r → r.endXid < 0 →
      (-r.endXid = T ∧ ⟨.delete, l⟩ ∈ x'.pending) ∨ ∃ r₀, db.row l = some r₀ ∧
        r₀.endXid = r.endXid ∧ (⟨.delete, l⟩ ∈ x.pending → ⟨.delete, l⟩ ∈ x'.pending))
    (hpending : ∀ l' ≠ l, ⟨.delete, l'⟩ ∈ x.pending → ⟨.delete, l'⟩ ∈ x'.pending) :
    Ended ((db.versions.setRow l r').setTrx T x') := by
  have hkept : ∀ l' r₀, db.row l' = some r₀ → r₀.endXid < 0 →
      (⟨.delete, l'⟩ ∈ x.pending → ⟨.delete, l'⟩ ∈ x'.pending) →
      ∃ y, ((db.versions.setRow l r').setTrx T x').trx (-r₀.endXid) = some y ∧
        ⟨.delete, l'⟩ ∈ y.pending := by
    intro l' r₀ hr₀ hneg hmono
    obtain ⟨y, hy, hmem⟩ := h l' r₀ hr₀ hneg
    by_cases hS : -r₀.endXid = T
    · rw [hS] at hy ⊢
      obtain rfl := Option.some.inj (hx.symm.trans hy)
      exact ⟨x', Versions.setTrx_some.mpr (Or.inl ⟨rfl, rfl⟩), hmono hmem⟩
    · exact ⟨y, Versions.setTrx_some.mpr (Or.inr ⟨hS, hy⟩), hmem⟩
  intro l' r hr hneg
  rcases Versions.setRow_some.mp hr with ⟨rfl, hr'⟩ | ⟨hl, hr'⟩
  · rcases hrow r hr' hneg with ⟨hT, hmem⟩ | ⟨r₀, hr₀, he, hmono⟩
    · exact ⟨x', Versions.setTrx_some.mpr (Or.inl ⟨hT, rfl⟩), hmem⟩
    · rw [← he] at hneg ⊢
      exact hkept l' r₀ hr₀ hneg hmono
  · exact hkept l' r hr' hneg (hpending l' hl)

/-- A transaction starts, or changes its phase with the operations it has. -/
theorem Ended.turn (h : Ended db.versions) {T c : Int} {x' : MvccTrx}
    (hpending : ∀ x, db.trx T = some x → ∀ op ∈ x.pending, op ∈ x'.pending) :
    Ended ({ db.versions with currentTrxId := c }.setTrx T x') := by
  intro l r hr hneg
  obtain ⟨y, hy, hmem⟩ := h l r hr hneg
  by_cases hS : -r.endXid = T
  · rw [hS] at hy ⊢
    exact ⟨x', Versions.setTrx_some.mpr (Or.inl ⟨rfl, rfl⟩), hpending y hy _ hmem⟩
  · exact ⟨y, Versions.setTrx_some.mpr (Or.inr ⟨hS, hy⟩), hmem⟩

/-- The first pending operation is worked off: its end mark, if it is one, becomes `c`. -/
theorem Ended.workOff (h : Ended db.versions) {T : Int} {operations pending : List Operation}
    {op : Operation} {phase : Phase} {r : Row D} {r' : Option (Row D)}
    (hx : db.trx T = some ⟨operations, op :: pending, phase⟩) (hr : db.row op.loc = some r)
    (hr' : (∃ c, 0 < c ∧ r' = some (op.setXid c r)) ∨ r' = none) :
    Ended ((db.versions.setRow op.loc r').setTrx T ⟨operations, pending, phase⟩) := by
  obtain ⟨type, l⟩ := op
  refine h.change hx ?_ ?_
  · intro r₁ hr₁ hneg
    rcases hr' with ⟨c, hc, rfl⟩ | rfl
    · obtain rfl := Option.some.inj hr₁
      cases type with
      | insert =>
        refine Or.inr ⟨r, hr, rfl, fun hmem => ?_⟩
        rcases List.mem_cons.mp hmem with heq | hmem
        · cases heq
        · exact hmem
      | delete => exact absurd hneg (by show ¬ c < 0; omega)
    · cases hr₁
  · intro l' hl' hmem
    rcases List.mem_cons.mp hmem with heq | hmem
    · exact absurd (congrArg Operation.loc heq) hl'
    · exact hmem

/-- The rows of an ended transaction carry no mark of it. -/
theorem Ended.step {a : Action D U} {v' : Versions D} (h : Ended db.versions)
    (hmarks : Marks db.versions) (hok : KeepsMarks db a) (hstep : RowStep db a v') : Ended v' := by
  -- a mark of a transaction is on a row only while the row is among its operations
  cases hstep with
  | start =>
    refine h.turn fun x hx op _ => ?_
    have hnonneg : 0 ≤ db.currentTrxId := hmarks.nonneg
    have hle : nextTrxId db.currentTrxId ≤ db.currentTrxId := (hmarks.trx _ x hx).le
    rw [nextTrxId_eq hnonneg hok] at hle
    omega
  -- the new row is not marked as deleted
  | @insert T x tid rid data p hx hphase hfree =>
    refine h.change hx ?_ fun l' _ hmem => List.mem_append_left _ hmem
    intro r hr hneg
    obtain rfl := Option.some.inj hr
    exact absurd hneg (by show ¬ maxTrxId < 0; decide)
  -- the row is marked by the transaction, which now lists it
  | @delete T x tid rid r hx hphase hr hw =>
    refine h.change hx ?_ fun l' _ hmem => List.mem_append_left _ hmem
    intro r' hr' _
    obtain rfl := Option.some.inj hr'
    exact Or.inl ⟨by show - -T = T; omega, List.mem_append_right _ (by simp)⟩
  | @commit T x hx hphase =>
    refine h.turn fun y hy op hop => ?_
    obtain rfl := Option.some.inj (hx.symm.trans hy)
    exact hop
  | @commitOperation T c operations pending op r hx hr hxid =>
    have hc := (hmarks.trx T _ hx).commitPos c rfl
    exact h.workOff hx hr (Or.inl ⟨c, hc, rfl⟩)
  -- a rollback lists the same rows the other way round
  | @rollback T x hx hphase =>
    refine h.turn fun y hy op hop => ?_
    obtain rfl := Option.some.inj (hx.symm.trans hy)
    rw [(hmarks.trx T x hx).active hphase] at hop
    exact List.mem_reverse.mpr hop
  | @undoInsert T operations pending op r hx htype hr => exact h.workOff hx hr (Or.inr rfl)
  | @undoDelete T operations pending op r hx htype hr hend =>
    have hset : ({ r with endXid := maxTrxId } : Row D) = op.setXid maxTrxId r := by
      unfold Operation.setXid
      rw [htype]
    rw [hset]
    exact h.workOff hx hr (Or.inl ⟨maxTrxId, by decide, rfl⟩)
  | @update T tid stmt p row' hx hrow =>
    intro l r hr hneg
    rcases hrow l with heq | ⟨-, hnone | ⟨r₁, hr₁, l₀, r₀, hs, -, he⟩⟩
    · exact h l r (heq.symm.trans hr) hneg
    · cases hnone.symm.trans hr
    · -- UPDATE has only taken up rows without marks
      obtain rfl := Option.some.inj (hr₁.symm.trans hr)
      have := (unmarked_of_selected hs.row.2 (hok l₀ r₀ hs)).2
      omega
  | made =>
    intro l r hr hneg
    rcases Versions.setRow_some.mp hr with ⟨-, hr'⟩ | ⟨-, hr'⟩
    · obtain rfl := Option.some.inj hr'
      exact absurd hneg (by show ¬ (0 : Int) < 0; decide)
    · exact h l r hr' hneg
  | idle => exact h

end Ended

/-! ## The machine -/

abbrev SessionId := Nat

/-- `class Session`. -/
structure Session where
  /-- The identifier of `trx_`, once it has been started. -/
  trxId : Option Int
  destroyed : Bool
  deriving DecidableEq

structure Server (D U : Type) where
  db : Database D U
  sessions : SessionId → Option Session

/-- What a session asks of its transaction. -/
inductive Request (D : Type) where
  | insertRecord (tid : TableId) (data : D) (p : Placement D)
  | deleteRecord (tid : TableId) (rid : RecordId)
  | commit
  | commitOperation
  | rollback
  | rollbackOperation

def Request.action (trxId : Int) : Request D → Action D U
  | .insertRecord tid data p => .insertRecord trxId tid data p
  | .deleteRecord tid rid => .deleteRecord trxId tid rid
  | .commit => .commit trxId
  | .commitOperation => .commitOperation trxId
  | .rollback => .rollback trxId
  | .rollbackOperation => .rollbackOperation trxId

/-- `MvccTrxKit::destroy_trx`. -/
def Database.destroyTrx (db : Database D U) (trxId : Int) : Database D U :=
  { db with trx := fun id => if id = trxId then none else db.trx id }

namespace Server

def empty : Server D U where
  db := .empty
  sessions _ := none

def setSession (w : Server D U) (s : SessionId) (y : Session) : Server D U :=
  { w with sessions := fun s' => if s' = s then some y else w.sessions s' }

/-- The session, if it is connected. -/
def session (w : Server D U) (s : SessionId) : Except Fault Session :=
  match w.sessions s with
  | some y => if y.destroyed then .error .disabled else .ok y
  | none => .error .disabled

/-- The transaction of a session, once it has been started. -/
def trxOf (w : Server D U) (y : Session) : Option MvccTrx := y.trxId.bind w.db.trx

/-- The session is inside the loop of `commit` or of `rollback`. -/
def Working (w : Server D U) (y : Session) : Prop :=
  ∃ x, w.trxOf y = some x ∧ x.phase ≠ .active ∧ x.pending ≠ []

instance (w : Server D U) (y : Session) : Decidable (w.Working y) :=
  match h : w.trxOf y with
  | none => .isFalse fun ⟨_, hx, _⟩ => nomatch h.symm.trans hx
  | some x => decidable_of_iff (x.phase ≠ .active ∧ x.pending ≠ []) <| by
    unfold Working
    rw [h]
    simp

/-- The session, if it is not inside such a loop. -/
def idleSession (w : Server D U) (s : SessionId) : Except Fault Session := do
  let y ← w.session s
  if w.Working y then .error .disabled else .ok y

/-- A new connection. -/
def connect (w : Server D U) (s : SessionId) : Except Fault (RC × Server D U) :=
  match w.sessions s with
  | some _ => .error .disabled
  | none => .ok (.success, w.setSession s ⟨none, false⟩)

/-- `Session::current_trx()->start_if_need()`. -/
def startIfNeed (w : Server D U) (s : SessionId) : Except Fault (RC × Server D U) := do
  let y ← w.idleSession s
  if (w.trxOf y).any (·.phase = .active) then return (.success, w)
  return (.success,
    { w with db := w.db.start }.setSession s { y with trxId := some (nextTrxId w.db.currentTrxId) })

/-- A call of `insert_record`, `delete_record`, `commit` or `rollback`. -/
def request (w : Server D U) (s : SessionId) (q : Request D) : Except Fault (RC × Server D U) := do
  let y ← w.session s
  match y.trxId with
  | none => throw .disabled
  | some trxId =>
    let (rc, db) ← w.db.step (q.action trxId)
    return (rc, { w with db })

/-- `Session::~Session`. -/
def destroy (w : Server D U) (s : SessionId) : Except Fault (RC × Server D U) := do
  let y ← w.idleSession s
  let db := match y.trxId with
    | none => w.db
    | some trxId => w.db.destroyTrx trxId
  return (.success, { w with db }.setSession s { y with destroyed := true })

/-- A statement that goes past the transaction. -/
def createTable (w : Server D U) (tid : TableId) : Except Fault (RC × Server D U) := do
  let (rc, db) ← w.db.createTable tid
  return (rc, { w with db })

def createIndex (w : Server D U) (s : SessionId) (tid : TableId) (indexMeta : IndexMeta D U) :
    Except Fault (RC × Server D U) := do
  let y ← w.session s
  let (rc, db) ← w.db.createIndex (y.trxId.getD (-1)) tid indexMeta
  return (rc, { w with db })

end Server

/-- What a session does, or the database by itself. -/
inductive ServerAction (D U : Type) where
  | connect (s : SessionId)
  | startIfNeed (s : SessionId)
  | request (s : SessionId) (q : Request D)
  | destroy (s : SessionId)
  | createTable (tid : TableId)
  | createIndex (s : SessionId) (tid : TableId) (indexMeta : IndexMeta D U)

def Server.step (w : Server D U) : ServerAction D U → Except Fault (RC × Server D U)
  | .connect s => w.connect s
  | .startIfNeed s => w.startIfNeed s
  | .request s q => w.request s q
  | .destroy s => w.destroy s
  | .createTable tid => w.createTable tid
  | .createIndex s tid indexMeta => w.createIndex s tid indexMeta

/-- A session is destroyed when its transaction has nothing left to commit or to roll back, and the
    counter does not reach the identifier that stands for "never". -/
def EndsTransactions (w : Server D U) : ServerAction D U → Prop
  | .startIfNeed _ | .request _ .commit => w.db.currentTrxId + 1 < maxTrxId
  | .destroy s => ∀ y x, w.sessions s = some y → w.trxOf y = some x → x.pending = []
  | _ => True

/-! ## The invariant -/

structure Locks (w : Server D U) : Prop where
  marks : Marks w.db.versions
  ended : Ended w.db.versions
  /-- The identifiers of the sessions have been handed out. -/
  known : ∀ s y T, w.sessions s = some y → y.trxId = some T → 0 < T ∧ T ≤ w.db.currentTrxId
  gone : ∀ s y T, w.sessions s = some y → y.destroyed → y.trxId = some T → w.db.trx T = none

theorem Locks.empty : Locks (Server.empty : Server D U) where
  marks := Marks.empty
  ended _ _ h := nomatch h
  known _ _ _ h := nomatch h
  gone _ _ _ h := nomatch h

section Step

variable {w w' : Server D U}

theorem Server.setSession_some {s s' : SessionId} {y y' : Session} :
    (w.setSession s y).sessions s' = some y' ↔
      (s' = s ∧ y' = y) ∨ (s' ≠ s ∧ w.sessions s' = some y') := by
  show (if s' = s then some y else w.sessions s') = some y' ↔ _
  by_cases h : s' = s <;> simp [h, eq_comm]

/-- A session that is found has not been destroyed. -/
theorem Server.session_ok {s : SessionId} {y : Session} (h : w.session s = .ok y) :
    w.sessions s = some y ∧ y.destroyed = false := by
  unfold Server.session at h
  cases hs : w.sessions s with
  | none =>
    rw [hs] at h
    cases h
  | some y' =>
    rw [hs] at h
    dsimp only at h
    split at h
    · cases h
    · rename_i hd
      obtain rfl := Except.ok.inj h
      exact ⟨rfl, by simpa using hd⟩

/-- Nor has one that is idle. -/
theorem Server.idleSession_ok {s : SessionId} {y : Session} (h : w.idleSession s = .ok y) :
    w.sessions s = some y ∧ y.destroyed = false := by
  unfold Server.idleSession at h
  obtain ⟨y', hy, h⟩ := ok_of_bind h
  by_cases hw : w.Working y'
  · rw [if_pos hw] at h
    cases h
  · rw [if_neg hw] at h
    obtain rfl := Except.ok.inj h
    exact Server.session_ok hy

/-- A step of the database, whatever session takes it. -/
theorem Locks.db_step (h : Locks w) {a : Action D U} {rc : RC} {db' : Database D U}
    (hok : KeepsMarks w.db a) (hstep : w.db.step a = .ok (rc, db')) : Locks { w with db := db' } := by
  have hrow := Database.step_rowStep hstep
  have hnonneg : 0 ≤ w.db.currentTrxId := h.marks.nonneg
  obtain ⟨hle, htrx⟩ := trx_step hnonneg hok.countsUp hrow
  refine ⟨h.marks.step hok hrow, h.ended.step h.marks hok hrow, ?_, ?_⟩
  · intro s y T hy hT
    obtain ⟨hpos, hT'⟩ := h.known s y T hy hT
    exact ⟨hpos, Int.le_trans hT' hle⟩
  · intro s y T hy hd hT
    have hnone := h.gone s y T hy hd hT
    have hknown := (h.known s y T hy hT).2
    cases hx : db'.trx T with
    | none => rfl
    | some x' =>
      rcases htrx T x' hx with ⟨x, hx', -⟩ | ⟨-, hlt, hT', -⟩
      · cases hnone.symm.trans hx'
      · omega

/-- A connected session gets a transaction, or none. -/
theorem Locks.setSession (h : Locks w) {s : SessionId} {y : Session}
    (hknown : ∀ T, y.trxId = some T → 0 < T ∧ T ≤ w.db.currentTrxId)
    (hgone : y.destroyed → ∀ T, y.trxId = some T → w.db.trx T = none) :
    Locks (w.setSession s y) := by
  refine ⟨h.marks, h.ended, ?_, ?_⟩
  · intro s' y' T hy' hT
    rcases Server.setSession_some.mp hy' with ⟨rfl, rfl⟩ | ⟨-, hy'⟩
    · exact hknown T hT
    · exact h.known s' y' T hy' hT
  · intro s' y' T hy' hd hT
    rcases Server.setSession_some.mp hy' with ⟨rfl, rfl⟩ | ⟨-, hy'⟩
    · exact hgone hd T hT
    · exact h.gone s' y' T hy' hd hT

theorem destroyTrx_some {db : Database D U} {T S : Int} {x : MvccTrx} :
    (db.destroyTrx T).trx S = some x ↔ S ≠ T ∧ db.trx S = some x := by
  show (if S = T then none else db.trx S) = some x ↔ _
  by_cases h : S = T <;> simp [h]

/-- A transaction that has nothing pending is destroyed. -/
theorem Locks.destroyTrx (h : Locks w) {T : Int}
    (hpending : ∀ x, w.db.trx T = some x → x.pending = []) :
    Locks { w with db := w.db.destroyTrx T } := by
  have hkept : ∀ {S x op}, w.db.trx S = some x → op ∈ x.pending →
      (w.db.destroyTrx T).trx S = some x := by
    intro S x op hx hop
    refine destroyTrx_some.mpr ⟨fun hS => ?_, hx⟩
    rw [hpending x (hS ▸ hx)] at hop
    cases hop
  refine ⟨⟨h.marks.nonneg, h.marks.lt, ?_, ?_, ?_, h.marks.both⟩, ?_, h.known, ?_⟩
  · exact fun S x hx => h.marks.trx S x (destroyTrx_some.mp hx).2
  · exact fun S x op hx => h.marks.marked S x op (destroyTrx_some.mp hx).2
  · intro l r hr hneg
    obtain ⟨x, hx, hmem⟩ := h.marks.owner l r hr hneg
    exact ⟨x, hkept hx hmem, hmem⟩
  · intro l r hr hneg
    obtain ⟨x, hx, hmem⟩ := h.ended l r hr hneg
    exact ⟨x, hkept hx hmem, hmem⟩
  · intro s y S hy hd hS
    cases hx : (w.db.destroyTrx T).trx S with
    | none => rfl
    | some x => cases (h.gone s y S hy hd hS).symm.trans (destroyTrx_some.mp hx).2

/-- A transaction that is started belongs to the session. -/
theorem Locks.startIfNeed (h : Locks w) {s : SessionId} {rc : RC}
    (hok : w.db.currentTrxId + 1 < maxTrxId) (hstep : w.startIfNeed s = .ok (rc, w')) :
    Locks w' := by
  unfold Server.startIfNeed at hstep
  obtain ⟨y, hy, hstep⟩ := ok_of_bind hstep
  obtain ⟨-, hd⟩ := Server.idleSession_ok hy
  by_cases hrun : (w.trxOf y).any (·.phase = .active)
  · rw [if_pos hrun] at hstep
    obtain ⟨-, rfl⟩ := Prod.mk.inj (Except.ok.inj hstep)
    exact h
  · rw [if_neg hrun] at hstep
    obtain ⟨-, rfl⟩ := Prod.mk.inj (Except.ok.inj hstep)
    have hdb : Locks { w with db := w.db.start } := h.db_step (a := .start) hok rfl
    refine hdb.setSession ?_ ?_
    · intro T hT
      obtain rfl := Option.some.inj hT
      have hnonneg : 0 ≤ w.db.currentTrxId := h.marks.nonneg
      have hnext := nextTrxId_eq hnonneg hok
      exact ⟨by omega, Int.le_refl _⟩
    · intro hd'
      exact absurd (hd.symm.trans hd') nofun

theorem Request.keepsMarks {s : SessionId} {q : Request D}
    (hok : EndsTransactions w (.request s q)) (T : Int) : KeepsMarks w.db (q.action T) := by
  cases q with
  | commit => exact hok
  | _ => trivial

/-- A session that is destroyed has ended its transaction, by the condition. -/
theorem Locks.destroy (h : Locks w) {s : SessionId} {rc : RC}
    (hok : EndsTransactions w (.destroy s)) (hstep : w.destroy s = .ok (rc, w')) : Locks w' := by
  unfold Server.destroy at hstep
  obtain ⟨⟨trxId, destroyed⟩, hy, hstep⟩ := ok_of_bind hstep
  obtain ⟨hs, -⟩ := Server.idleSession_ok hy
  obtain ⟨-, rfl⟩ := Prod.mk.inj (Except.ok.inj hstep)
  cases trxId with
  | none => exact h.setSession nofun nofun
  | some T =>
    have hdb : Locks { w with db := w.db.destroyTrx T } := h.destroyTrx fun x hx => hok _ x hs hx
    refine hdb.setSession (fun S hS => h.known s _ S hs hS) fun _ S hS => ?_
    obtain rfl := Option.some.inj hS
    exact if_pos rfl

/-- **Step.** -/
theorem Locks.step {a : ServerAction D U} {rc : RC} (h : Locks w) (hok : EndsTransactions w a)
    (hstep : w.step a = .ok (rc, w')) : Locks w' := by
  cases a with
  | connect s =>
    replace hstep : w.connect s = .ok (rc, w') := hstep
    unfold Server.connect at hstep
    cases hs : w.sessions s with
    | some y =>
      rw [hs] at hstep
      cases hstep
    | none =>
      rw [hs] at hstep
      obtain ⟨-, rfl⟩ := Prod.mk.inj (Except.ok.inj hstep)
      exact h.setSession nofun nofun
  | startIfNeed s => exact h.startIfNeed hok hstep
  | request s q =>
    replace hstep : w.request s q = .ok (rc, w') := hstep
    unfold Server.request at hstep
    obtain ⟨⟨trxId, destroyed⟩, -, hstep⟩ := ok_of_bind hstep
    cases trxId with
    | none => cases hstep
    | some T =>
      obtain ⟨⟨rc', db'⟩, hdb, hstep⟩ := ok_of_bind hstep
      obtain ⟨-, rfl⟩ := Prod.mk.inj (Except.ok.inj hstep)
      exact h.db_step (Request.keepsMarks hok T) hdb
  | destroy s => exact h.destroy hok hstep
  | createTable tid =>
    obtain ⟨⟨rc', db'⟩, hdb, hstep⟩ := ok_of_bind hstep
    obtain ⟨-, rfl⟩ := Prod.mk.inj (Except.ok.inj hstep)
    exact h.db_step (a := .createTable tid) trivial hdb
  | createIndex s tid indexMeta =>
    obtain ⟨y, -, hstep⟩ := ok_of_bind hstep
    obtain ⟨⟨rc', db'⟩, hdb, hstep⟩ := ok_of_bind hstep
    obtain ⟨-, rfl⟩ := Prod.mk.inj (Except.ok.inj hstep)
    exact h.db_step (a := .createIndex (y.trxId.getD (-1)) tid indexMeta) trivial hdb

end Step

/-! ## Results -/

/-- No row carries the mark of a transaction whose session has been destroyed. -/
def NoAbandonedLocks (w : Server D U) : Prop :=
  ∀ s y T, w.sessions s = some y → y.destroyed → y.trxId = some T →
    ∀ l r, w.db.row l = some r → r.beginXid ≠ -T ∧ r.endXid ≠ -T

/-- What is locked is locked for a session that is there. -/
theorem Locks.noAbandonedLocks {w : Server D U} (h : Locks w) : NoAbandonedLocks w := by
  intro s y T hs hd hT l r hr
  have hpos := (h.known s y T hs hT).1
  have hnone := h.gone s y T hs hd hT
  constructor
  · intro hb
    obtain ⟨x, hx, -⟩ := h.marks.owner l r hr (by omega)
    rw [hb, Int.neg_neg] at hx
    cases hnone.symm.trans hx
  · intro he
    obtain ⟨x, hx, -⟩ := h.ended l r hr (by omega)
    rw [he, Int.neg_neg] at hx
    cases hnone.symm.trans hx

/-- The condition on the destruction of a session is the exact one. -/
theorem destroy_noAbandonedLocks_iff {w w' : Server D U} {s : SessionId} {rc : RC} (h : Locks w)
    (hstep : w.destroy s = .ok (rc, w')) :
    NoAbandonedLocks w' ↔ ∀ y x, w.sessions s = some y → w.trxOf y = some x → x.pending = [] := by
  constructor
  · intro hno y x hy hx
    unfold Server.destroy Server.idleSession at hstep
    obtain ⟨y', hidle, hstep⟩ := ok_of_bind hstep
    obtain ⟨-, rfl⟩ := Prod.mk.inj (Except.ok.inj hstep)
    obtain ⟨y₁, hy₁, hidle⟩ := ok_of_bind hidle
    obtain rfl := Option.some.inj (hy.symm.trans (Server.session_ok hy₁).1)
    split at hidle
    · cases hidle
    · rename_i hwork
      obtain rfl := Except.ok.inj hidle
      obtain ⟨T, hT, hx'⟩ := Option.bind_eq_some_iff.mp hx
      by_contra hne
      obtain ⟨op, hop⟩ := List.exists_mem_of_ne_nil _ hne
      have hactive : x.phase = .active := not_not.mp fun hp => hwork ⟨x, hx, hp, hne⟩
      obtain ⟨r, hr, hxid⟩ := h.marks.marked T x op hx' hop (Or.inr hactive)
      have hrow := hno s { y with destroyed := true } T
        (Server.setSession_some.mpr (Or.inl ⟨rfl, rfl⟩)) rfl hT op.loc r (by rw [hT]; exact hr)
      unfold Operation.xid at hxid
      split at hxid
      · exact hrow.1 hxid
      · exact hrow.2 hxid
  · exact fun hpending => (h.destroy (fun y x => hpending y x) hstep).noAbandonedLocks

/-- **Headline.**  In every run that ends the transaction of a session before the session is destroyed,
    no row carries the mark of a transaction whose session has been destroyed. -/
theorem no_abandoned_locks (w : Server D U)
    (h : Reachable Server.step EndsTransactions .empty w) : NoAbandonedLocks w :=
  (h.invariant Locks.empty fun _ _ _ _ hw hok hstep => hw.step hok hstep).noAbandonedLocks

/-- Two sessions; one inserts a row, commits and is destroyed. -/
theorem no_abandoned_locks_committed : ∃ w : Server Int Int,
    w.sessions 0 = some ⟨some 1, true⟩ ∧ NoAbandonedLocks w := by
  have h₀ : Reachable Server.step EndsTransactions (.empty : Server Int Int) .empty := .init
  have h₁ := h₀.next (.createTable 0) trivial rfl
  have h₂ := h₁.next (.connect 0) trivial rfl
  have h₃ := h₂.next (.connect 1) trivial rfl
  have h₄ := h₃.next (.startIfNeed 0) (by show (0 : Int) + 1 < maxTrxId; decide) rfl
  have h₅ := h₄.next (.startIfNeed 1) (by show (1 : Int) + 1 < maxTrxId; decide) rfl
  have h₆ := h₅.next (.request 0 (.insertRecord 0 7 firstSlots)) trivial rfl
  have h₇ := h₆.next (.request 0 .commit) (by show (2 : Int) + 1 < maxTrxId; decide) rfl
  have h₈ := h₇.next (.request 0 .commitOperation) trivial rfl
  have h₉ := h₈.next (.destroy 0) (by
    intro y x hy hx
    obtain rfl := Option.some.inj hy
    obtain rfl := Option.some.inj hx
    rfl) rfl
  exact ⟨_, rfl, no_abandoned_locks _ h₉⟩

/-- A session that is destroyed in the middle of its transaction leaves a row that nobody unmarks. -/
theorem destroyed_session_leaves_mark :
    ¬ ∀ w : Server Int Int, Reachable Server.step (fun _ _ => True) .empty w →
      NoAbandonedLocks w := by
  intro h
  have h₀ : Reachable Server.step (fun _ _ => True) (.empty : Server Int Int) .empty := .init
  have h₁ := h₀.next (.createTable 0) trivial rfl
  have h₂ := h₁.next (.connect 0) trivial rfl
  have h₃ := h₂.next (.startIfNeed 0) trivial rfl
  have h₄ := h₃.next (.request 0 (.insertRecord 0 7 firstSlots)) trivial rfl
  have h₅ := h₄.next (.destroy 0) trivial rfl
  exact (h _ h₅ 0 ⟨some 1, true⟩ 1 rfl rfl rfl (0, ⟨⟨1, 0⟩, by decide, by decide⟩)
    ⟨-1, maxTrxId, 7⟩ rfl).1 rfl

end Miniob.Trx
