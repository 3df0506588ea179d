/-
  The nested-loop join (`join_physical_operator.cpp`).

  1. The operator is a small state machine: `roundDone` says that the right side has to start again,
     `rightClosed` that it is not open.
  2. Between two rounds the right side is closed or at its end; within a round the left side stands still, so
     that what the joined tuple reads through its pointer stays the row it was (`Between`, `Within`).
  3. The contract of the children carries over to the join (`Replays.join`), so joins can be nested.
-/
import Miniob.Exec.Operator

namespace Miniob.Exec

open Miniob.Storage (RC)

variable {X S₁ S₂ C V : Type}

/-! ## The joined tuple -/

/-- `JoinedTuple`. -/
def joinedTuple (left right : Tuple C V) : Tuple C V where
  cellNum := left.cellNum + right.cellNum
  cellAt index :=
    if 0 ≤ index ∧ index < left.cellNum then left.cellAt index
    else if left.cellNum ≤ index ∧ index < left.cellNum + right.cellNum then
      right.cellAt (index - left.cellNum)
    else .error .notfound
  specAt index :=
    if 0 ≤ index ∧ index < left.cellNum then left.specAt index
    else if left.cellNum ≤ index ∧ index < left.cellNum + right.cellNum then
      right.specAt (index - left.cellNum)
    else .error .notfound
  findCell spec :=
    match left.findCell spec with
    | .error .notfound => right.findCell spec
    | answer => answer

/-- Reading by position goes through the left part and then through the right one. -/
theorem map_range_append {α : Type} (m n : Nat) (f g : Int → α) (other : α) :
    (List.range (m + n)).map (fun i : Nat =>
        if 0 ≤ (i : Int) ∧ (i : Int) < m then f i
        else if (m : Int) ≤ i ∧ (i : Int) < m + n then g (i - m) else other) =
      (List.range m).map (fun i : Nat => f i) ++ (List.range n).map fun i : Nat => g i := by
  rw [List.range_add, List.map_append, List.map_map]
  congr 1
  · refine List.map_congr_left fun i hi => ?_
    rw [List.mem_range] at hi
    rw [if_pos (by omega)]
  · refine List.map_congr_left fun i hi => ?_
    rw [List.mem_range] at hi
    dsimp only [Function.comp_apply]
    rw [if_neg (by omega), if_pos (by omega), Int.natCast_add,
      show (m : Int) + i - m = i by omega]

theorem cells_joinedTuple (left right : Tuple C V) :
    (joinedTuple left right).cells = left.cells ++ right.cells :=
  map_range_append left.cellNum right.cellNum left.cellAt right.cellAt (.error .notfound)

theorem specs_joinedTuple (left right : Tuple C V) :
    (joinedTuple left right).specs = left.specs ++ right.specs :=
  map_range_append left.cellNum right.cellNum left.specAt right.specAt (.error .notfound)

/-! ## The operator -/

/-- The fields of `NestedLoopJoinPhysicalOperator`. -/
structure NestedLoopJoin (X S₁ S₂ : Type) where
  left : S₁
  right : S₂
  trx : X
  roundDone : Bool
  rightClosed : Bool

namespace NestedLoopJoin

section Methods

variable (left : PhysicalOperator X S₁ C V) (right : PhysicalOperator X S₂ C V)

def openOperator (trx : X) (s : NestedLoopJoin X S₁ S₂) : RC × NestedLoopJoin X S₁ S₂ :=
  let s := { s with rightClosed := true, roundDone := true }
  let (rc, l) := left.openOperator trx s.left
  (rc, { s with left := l, trx })

def leftNext (s : NestedLoopJoin X S₁ S₂) : RC × NestedLoopJoin X S₁ S₂ :=
  let (rc, l) := left.next s.left
  (rc, { s with left := l })

def reopen (s : NestedLoopJoin X S₁ S₂) : RC × NestedLoopJoin X S₁ S₂ :=
  let (rc, r) := right.openOperator s.trx s.right
  if rc ≠ .success then (rc, { s with right := r })
  else (rc, { s with right := r, rightClosed := false, roundDone := false })

/-- The first part of `right_next`: at the end of a round the right side is closed and opened again. -/
def restart (s : NestedLoopJoin X S₁ S₂) : RC × NestedLoopJoin X S₁ S₂ :=
  if !s.rightClosed then
    let (rc, r) := right.close s.right
    let s := { s with right := r, rightClosed := true }
    if rc ≠ .success then (rc, s) else reopen right s
  else reopen right s

/-- `right_next`: the right child starts again when it is at its end. -/
def rightNext (s : NestedLoopJoin X S₁ S₂) : RC × NestedLoopJoin X S₁ S₂ :=
  let (rc, s) := if s.roundDone then restart right s else (.success, s)
  if rc ≠ .success then (rc, s)
  else
    let (rc, r) := right.next s.right
    if rc = .recordEof then (rc, { s with right := r, roundDone := true })
    else (rc, { s with right := r })

/-- A step of the left side and a new round. -/
def nextRound (s : NestedLoopJoin X S₁ S₂) : RC × NestedLoopJoin X S₁ S₂ :=
  let (rc, s) := leftNext left s
  if rc ≠ .success then (rc, s)
  else rightNext right s

/-- `left_need_step` is true wherever it is tested: either the round is done before, or `right_next` has
    just said so. -/
def next (s : NestedLoopJoin X S₁ S₂) : RC × NestedLoopJoin X S₁ S₂ :=
  if s.roundDone then nextRound left right s
  else
    let (rc, s) := rightNext right s
    if rc = .recordEof then nextRound left right s
    else (rc, s)

/-- `close`: the right child may be closed already. -/
def close (s : NestedLoopJoin X S₁ S₂) : RC × NestedLoopJoin X S₁ S₂ :=
  let (rc, l) := left.close s.left
  let s := { s with left := l }
  if !s.rightClosed then
    let (rc, r) := right.close s.right
    (rc, { s with right := r, rightClosed := if rc = .success then true else false })
  else (rc, s)

/-- `joined_tuple_` reads the rows of the children through its pointers. -/
def operator : PhysicalOperator X (NestedLoopJoin X S₁ S₂) C V where
  openOperator := openOperator left
  next := next left right
  close := close left right
  currentTuple s := joinedTuple (left.currentTuple s.left) (right.currentTuple s.right)

end Methods

/-! ## Children that replay -/

/-- The pairs in left-major order. -/
def pairs (ls rs : List (Tuple C V)) : List (Tuple C V) := ls.flatMap fun l => rs.map (joinedTuple l)

section Replay

variable {left : PhysicalOperator X S₁ C V} {right : PhysicalOperator X S₂ C V} {trx : X}
  {ls rs lts rts : List (Tuple C V)} {l : Tuple C V} {s : NestedLoopJoin X S₁ S₂}
  (L : Replay left trx ls) (R : Replay right trx rs)

/-- The right side is closed, or it can be. -/
def RightRests (s : NestedLoopJoin X S₁ S₂) : Prop :=
  if s.rightClosed then R.Closed s.right else R.Opened s.right

/-- Between two rounds; the left side has these rows to come. -/
structure Between (lts : List (Tuple C V)) (s : NestedLoopJoin X S₁ S₂) : Prop where
  /-- The round of the last left row is over. -/
  done : s.roundDone = true
  trx : s.trx = trx
  /-- The left side stands in front of these rows. -/
  left : L.Ahead lts s.left
  /-- The right side is closed, or it can be. -/
  right : RightRests R s

/-- In the round of the left row `l`. -/
structure Within (l : Tuple C V) (lts rts : List (Tuple C V)) (s : NestedLoopJoin X S₁ S₂) : Prop where
  /-- A round is on. -/
  running : s.roundDone = false
  notClosed : s.rightClosed = false
  trx : s.trx = trx
  /-- The left row of the round. -/
  current : left.currentTuple s.left = l
  left : L.Ahead lts s.left
  /-- The right side stands in front of its rows. -/
  right : R.Ahead rts s.right

/-- The pairs to come. -/
inductive Ahead : List (Tuple C V) → NestedLoopJoin X S₁ S₂ → Prop where
  | between (lts : List (Tuple C V)) (s : NestedLoopJoin X S₁ S₂) :
      Between L R lts s → Ahead (pairs lts rs) s
  | within (l : Tuple C V) (lts rts : List (Tuple C V)) (s : NestedLoopJoin X S₁ S₂) :
      Within L R l lts rts s → Ahead (rts.map (joinedTuple l) ++ pairs lts rs) s

def Opened (s : NestedLoopJoin X S₁ S₂) : Prop := L.Opened s.left ∧ RightRests R s

/-- What `next` has to answer when these pairs are to come. -/
def Answers : List (Tuple C V) → RC × NestedLoopJoin X S₁ S₂ → Prop
  | [], (rc, s) => rc = .recordEof ∧ Opened L R s
  | t :: ts, (rc, s) => rc = .success ∧ (operator left right).currentTuple s = t ∧ Ahead L R ts s

variable {L R}

/-- A new round starts with all rows of the right side. -/
theorem restart_spec (h : RightRests R s) (htrx : s.trx = trx) : ∃ r, R.Ahead rs r ∧
    restart right s = (.success, { s with right := r, rightClosed := false, roundDone := false }) := by
  unfold RightRests at h
  unfold restart reopen
  cases hclosed : s.rightClosed with
  | true =>
    rw [hclosed, if_pos rfl] at h
    obtain ⟨r, hopen, hr⟩ := R.opens s.right h
    refine ⟨r, hr, ?_⟩
    simp only [Bool.not_true, Bool.false_eq_true, if_false, ne_eq, not_true_eq_false, htrx, hopen]
  | false =>
    rw [hclosed, if_neg Bool.false_ne_true] at h
    obtain ⟨r₁, hclose, h₁⟩ := R.closes s.right h
    obtain ⟨r, hopen, hr⟩ := R.opens r₁ h₁
    refine ⟨r, hr, ?_⟩
    simp only [Bool.not_false, if_true, hclose, ne_eq, not_true_eq_false, if_false, htrx, hopen]

/-- The next row of a round that is running. -/
theorem rightNext_row {r : Tuple C V} (hrun : s.roundDone = false) (h : R.Ahead (r :: rts) s.right) :
    ∃ r', rightNext right s = (.success, { s with right := r' }) ∧ right.currentTuple r' = r ∧
      R.Ahead rts r' := by
  obtain ⟨r', hnext, hcurrent, hr'⟩ := R.row r rts s.right h
  refine ⟨r', ?_, hcurrent, hr'⟩
  unfold rightNext
  simp [hrun, hnext]

/-- The end of a round that is running. -/
theorem rightNext_eof (hrun : s.roundDone = false) (h : R.Ahead [] s.right) :
    ∃ r', rightNext right s = (.recordEof, { s with right := r', roundDone := true }) ∧ R.Opened r' := by
  obtain ⟨r', hnext, hr'⟩ := R.eof s.right h
  refine ⟨r', ?_, hr'⟩
  unfold rightNext
  simp [hrun, hnext]

theorem rightNext_of_done (hdone : s.roundDone = true) (h : RightRests R s) (htrx : s.trx = trx) :
    ∃ r, R.Ahead rs r ∧ rightNext right s
      = rightNext right { s with right := r, rightClosed := false, roundDone := false } := by
  obtain ⟨r, hr, hrestart⟩ := restart_spec h htrx
  refine ⟨r, hr, ?_⟩
  unfold rightNext
  simp [hdone, hrestart]

/-- A step of the left side: the end, or the first pair of a new round. -/
theorem nextRound_spec (h : Between L R lts s) : Answers L R (pairs lts rs) (nextRound left right s) := by
  cases lts with
  | nil =>
    obtain ⟨l', hnext, hl'⟩ := L.eof s.left h.left
    have hround : nextRound left right s = (.recordEof, { s with left := l' }) := by
      unfold nextRound leftNext
      simp [hnext]
    rw [hround]
    exact ⟨rfl, hl', h.right⟩
  | cons l lts =>
    obtain ⟨l', hnext, hcurrent, hl'⟩ := L.row l lts s.left h.left
    obtain ⟨r, hr, hright⟩ := @rightNext_of_done X S₁ S₂ C V right trx rs { s with left := l' } R
      h.done h.right h.trx
    let started : NestedLoopJoin X S₁ S₂ :=
      { s with left := l', right := r, rightClosed := false, roundDone := false }
    have hround : nextRound left right s = rightNext right started := by
      unfold nextRound leftNext
      simp only [hnext, ne_eq, not_true_eq_false, if_false]
      exact hright
    rw [hround]
    cases rs with
    | nil =>
      -- no row on the right: this is the end, whatever is left on the left
      obtain ⟨r', hend, hr'⟩ := @rightNext_eof X S₁ S₂ C V right trx [] started R rfl hr
      have hnil : pairs (l :: lts) ([] : List (Tuple C V)) = [] := by
        unfold pairs
        simp
      rw [hnil, hend]
      exact ⟨rfl, L.opened _ _ hl', hr'⟩
    | cons t rs =>
      obtain ⟨r', hrow, hcurrent', hr'⟩ := @rightNext_row X S₁ S₂ C V right trx _ rs started R t rfl hr
      rw [hrow]
      refine ⟨rfl, ?_, .within l lts rs _ ⟨rfl, rfl, h.trx, hcurrent, hl', hr'⟩⟩
      show joinedTuple (left.currentTuple l') (right.currentTuple r') = _
      rw [hcurrent, hcurrent']

/-- `next` within a round: the next row of it, or the end of it and a step of the left side. -/
theorem next_spec {ts : List (Tuple C V)} (h : Ahead L R ts s) :
    Answers L R ts (next left right s) := by
  cases h with
  | between lts s h =>
    have hnext : next left right s = nextRound left right s := by
      unfold next
      rw [h.done, if_pos rfl]
    rw [hnext]
    exact nextRound_spec h
  | within l lts rts s h =>
    cases rts with
    | cons r rts =>
      obtain ⟨r', hrow, hcurrent, hr'⟩ := @rightNext_row X S₁ S₂ C V right trx rs rts s R r h.running h.right
      have hnext : next left right s = (.success, { s with right := r' }) := by
        unfold next
        simp [h.running, hrow]
      rw [hnext]
      refine ⟨rfl, ?_, .within l lts rts _ ⟨h.running, h.notClosed, h.trx, h.current, h.left, hr'⟩⟩
      show joinedTuple (left.currentTuple s.left) (right.currentTuple r') = _
      rw [h.current, hcurrent]
    | nil =>
      obtain ⟨r', hend, hr'⟩ := @rightNext_eof X S₁ S₂ C V right trx rs s R h.running h.right
      have hnext : next left right s = nextRound left right { s with right := r', roundDone := true } := by
        unfold next
        simp [h.running, hend]
      have hrests : RightRests R { s with right := r', roundDone := true } := by
        unfold RightRests
        rw [if_neg (by rw [h.notClosed]; exact Bool.false_ne_true)]
        exact hr'
      rw [hnext]
      exact @nextRound_spec X S₁ S₂ C V left right trx ls rs lts { s with right := r', roundDone := true } L R
        ⟨rfl, h.trx, h.left, hrests⟩

/-- A join that has rows ahead of it is open. -/
theorem Ahead.opened {ts : List (Tuple C V)} (h : Ahead L R ts s) : Opened L R s := by
  cases h with
  | between lts s h => exact ⟨L.opened lts _ h.left, h.right⟩
  | within l lts rts s h =>
    refine ⟨L.opened lts _ h.left, ?_⟩
    unfold RightRests
    rw [if_neg (by rw [h.notClosed]; exact Bool.false_ne_true)]
    exact R.opened rts _ h.right

/-- Both children are closed, in whatever state the join is. -/
theorem close_spec (h : Opened L R s) : ∃ s', close left right s = (.success, s') ∧
    L.Closed s'.left ∧ R.Closed s'.right := by
  obtain ⟨hl, hr⟩ := h
  obtain ⟨l', hclose, hl'⟩ := L.closes s.left hl
  unfold RightRests at hr
  unfold close
  cases hclosed : s.rightClosed with
  | true =>
    rw [hclosed, if_pos rfl] at hr
    exact ⟨{ s with left := l' }, by simp [hclose, hclosed], hl', hr⟩
  | false =>
    rw [hclosed, if_neg Bool.false_ne_true] at hr
    obtain ⟨r', hcloseRight, hr'⟩ := R.closes s.right hr
    exact ⟨{ s with left := l', right := r', rightClosed := true },
      by simp [hclose, hcloseRight], hl', hr'⟩

/-- The join of operators that replay their rows replays the pairs. -/
def replay (L : Replay left trx ls) (R : Replay right trx rs) :
    Replay (operator left right) trx (pairs ls rs) where
  Closed s := L.Closed s.left ∧ R.Closed s.right
  Ahead := Ahead L R
  Opened := Opened L R
  opens := by
    rintro s ⟨hl, hr⟩
    obtain ⟨l', hopen, hl'⟩ := L.opens s.left hl
    refine ⟨{ s with left := l', trx, roundDone := true, rightClosed := true }, ?_,
      .between ls _ ⟨rfl, rfl, hl', ?_⟩⟩
    · show openOperator left trx s = _
      unfold openOperator
      simp [hopen]
    · exact hr
  row t ts s h := by
    obtain ⟨hrc, hcurrent, hahead⟩ := next_spec h
    exact ⟨(next left right s).2, Prod.ext hrc rfl, hcurrent, hahead⟩
  eof s h := by
    obtain ⟨hrc, hopened⟩ := next_spec h
    exact ⟨(next left right s).2, Prod.ext hrc rfl, hopened⟩
  opened ts s h := h.opened
  closes s h := close_spec h

end Replay

/-! ## Children that fail -/

/-- The same operator; it also notes the errors it answers, the last one first. -/
def noted {S : Type} (op : PhysicalOperator X S C V) : PhysicalOperator X (S × List RC) C V where
  openOperator trx s :=
    let (rc, s') := op.openOperator trx s.1
    (rc, s', if rc = .success then s.2 else rc :: s.2)
  next s :=
    let (rc, s') := op.next s.1
    (rc, s', if rc = .success ∨ rc = .recordEof then s.2 else rc :: s.2)
  close s :=
    let (rc, s') := op.close s.1
    (rc, s', if rc = .success then s.2 else rc :: s.2)
  currentTuple s := op.currentTuple s.1

/-- The errors of the children. -/
def errors (s : NestedLoopJoin X (S₁ × List RC) (S₂ × List RC)) : List RC × List RC := (s.left.2, s.right.2)

/-- No child has failed in the call, or one has, and that is the answer. -/
def StopsAtError (before : List RC × List RC)
    (answer : RC × NestedLoopJoin X (S₁ × List RC) (S₂ × List RC)) : Prop :=
  errors answer.2 = before ∨
  (answer.1 ≠ .success ∧
    (errors answer.2 = (answer.1 :: before.1, before.2) ∨ errors answer.2 = (before.1, answer.1 :: before.2)))

section Errors

variable (left : PhysicalOperator X S₁ C V) (right : PhysicalOperator X S₂ C V)
  (s : NestedLoopJoin X (S₁ × List RC) (S₂ × List RC))

theorem StopsAtError.errors_eq {before : List RC × List RC}
    {answer : RC × NestedLoopJoin X (S₁ × List RC) (S₂ × List RC)} (h : StopsAtError before answer)
    (hrc : answer.1 = .success) : errors answer.2 = before := by
  rcases h with h | ⟨hne, -⟩
  · exact h
  · exact absurd hrc hne

/-- The first error of a child is what the join answers. -/
theorem openOperator_stops (trx : X) : StopsAtError (errors s) (openOperator (noted left) trx s) := by
  unfold openOperator noted
  dsimp only
  by_cases hrc : (left.openOperator trx s.left.1).1 = .success
  · rw [if_pos hrc]
    exact Or.inl rfl
  · rw [if_neg hrc]
    exact Or.inr ⟨hrc, Or.inl rfl⟩

/-- So it is for the left child. -/
theorem leftNext_stops : StopsAtError (errors s) (leftNext (noted left) s) := by
  unfold leftNext noted
  dsimp only
  by_cases hrc : (left.next s.left.1).1 = .success ∨ (left.next s.left.1).1 = .recordEof
  · rw [if_pos hrc]
    exact Or.inl rfl
  · rw [if_neg hrc]
    exact Or.inr ⟨fun h => hrc (Or.inl h), Or.inl rfl⟩

/-- And for the right one, when it is opened again. -/
theorem reopen_stops : StopsAtError (errors s) (reopen (noted right) s) := by
  unfold reopen noted
  dsimp only
  by_cases hrc : (right.openOperator s.trx s.right.1).1 = .success
  · rw [if_pos hrc, if_neg (not_not.mpr hrc)]
    exact Or.inl rfl
  · rw [if_neg hrc, if_pos hrc]
    exact Or.inr ⟨hrc, Or.inr rfl⟩

/-- Closing the right side and opening it again. -/
theorem restart_stops : StopsAtError (errors s) (restart (noted right) s) := by
  unfold restart
  cases s.rightClosed with
  | true => exact reopen_stops right s
  | false =>
    by_cases hrc : (right.close s.right.1).1 = .success
    · have hclose : (noted right).close s.right = (.success, (right.close s.right.1).2, s.right.2) := by
        unfold noted
        dsimp only
        rw [if_pos hrc, hrc]
      simp only [Bool.not_false, if_true, hclose]
      exact reopen_stops right { s with right := ((right.close s.right.1).2, s.right.2), rightClosed := true }
    · have hclose : (noted right).close s.right
          = ((right.close s.right.1).1, (right.close s.right.1).2, (right.close s.right.1).1 :: s.right.2) := by
        unfold noted
        dsimp only
        rw [if_neg hrc]
      simp only [Bool.not_false, if_true, hclose, ne_eq, hrc, not_false_eq_true]
      exact Or.inr ⟨hrc, Or.inr rfl⟩

theorem reopen_running {S : Type} (right : PhysicalOperator X S C V) (s : NestedLoopJoin X S₁ S)
    (h : (reopen right s).1 = .success) : (reopen right s).2.roundDone = false := by
  unfold reopen at h ⊢
  by_cases hrc : (right.openOperator s.trx s.right).1 = .success
  · simp only [hrc, ne_eq, not_true_eq_false, if_false]
  · simp only [hrc, ne_eq, not_false_eq_true, if_true] at h

/-- If the right side could be started, the round is running. -/
theorem restart_running {S : Type} (right : PhysicalOperator X S C V) (s : NestedLoopJoin X S₁ S)
    (h : (restart right s).1 = .success) : (restart right s).2.roundDone = false := by
  unfold restart at h ⊢
  cases hclosed : s.rightClosed with
  | true =>
    rw [hclosed] at h
    exact reopen_running right s h
  | false =>
    rw [hclosed] at h
    by_cases hrc : (right.close s.right).1 = .success
    · simp only [Bool.not_false, if_true, hrc, ne_eq, not_true_eq_false, if_false] at h ⊢
      exact reopen_running right _ h
    · simp only [Bool.not_false, if_true, hrc, ne_eq, not_false_eq_true] at h

/-- The step of the right side in a round that is running. -/
theorem rightNext_running (hrun : s.roundDone = false) :
    StopsAtError (errors s) (rightNext (noted right) s) ∧
      ((rightNext (noted right) s).1 = .recordEof → errors (rightNext (noted right) s).2 = errors s) := by
  unfold rightNext noted
  simp only [hrun, Bool.false_eq_true, if_false, ne_eq, not_true_eq_false]
  by_cases heof : (right.next s.right.1).1 = .recordEof
  · rw [if_pos heof, if_pos (Or.inr heof)]
    exact ⟨Or.inl rfl, fun _ => rfl⟩
  · rw [if_neg heof]
    refine ⟨?_, fun h => absurd h heof⟩
    by_cases hrc : (right.next s.right.1).1 = .success
    · rw [if_pos (Or.inl hrc)]
      exact Or.inl rfl
    · rw [if_neg (by rw [not_or]; exact ⟨hrc, heof⟩)]
      exact Or.inr ⟨hrc, Or.inr rfl⟩

/-- Or asked for its next row. -/
theorem rightNext_stops : StopsAtError (errors s) (rightNext (noted right) s) := by
  cases hdone : s.roundDone with
  | false => exact (rightNext_running right s hdone).1
  | true =>
    have hrestart := restart_stops right s
    by_cases hrc : (restart (noted right) s).1 = .success
    · have hrun := restart_running (noted right) s hrc
      have hnext : rightNext (noted right) s = rightNext (noted right) (restart (noted right) s).2 := by
        unfold rightNext
        simp [hdone, hrc, hrun]
      rw [hnext, ← hrestart.errors_eq hrc]
      exact (rightNext_running right _ hrun).1
    · have hnext : rightNext (noted right) s = restart (noted right) s := by
        unfold rightNext
        simp [hdone, hrc]
      rw [hnext]
      exact hrestart

/-- One round of the loop. -/
theorem nextRound_stops : StopsAtError (errors s) (nextRound (noted left) (noted right) s) := by
  have hleft := leftNext_stops left s
  unfold nextRound
  by_cases hrc : (leftNext (noted left) s).1 = .success
  · simp only [hrc, ne_eq, not_true_eq_false, if_false]
    rw [← hleft.errors_eq hrc]
    exact rightNext_stops right _
  · simp only [hrc, ne_eq, not_false_eq_true, if_true]
    exact hleft

/-- And the loop. -/
theorem next_stops : StopsAtError (errors s) (next (noted left) (noted right) s) := by
  unfold next
  cases hdone : s.roundDone with
  | true => exact nextRound_stops left right s
  | false =>
    obtain ⟨hstops, hsame⟩ := rightNext_running right s hdone
    by_cases heof : (rightNext (noted right) s).1 = .recordEof
    · simp only [Bool.false_eq_true, if_false, heof, if_true]
      rw [← hsame heof]
      exact nextRound_stops left right _
    · simp only [Bool.false_eq_true, if_false, heof]
      exact hstops

end Errors

/-- **The nested-loop join.**  If the children replay their rows, the join replays the pairs, in left-major
    order; the cells of a pair are those of its two rows; and when a child fails in `open` or `next`, its
    error is the answer. -/
theorem join_replays (left : PhysicalOperator X S₁ C V) (right : PhysicalOperator X S₂ C V) :
    (∀ trx ls rs (s : NestedLoopJoin X S₁ S₂), Replays left trx ls s.left → Replays right trx rs s.right →
      Replays (operator left right) trx (pairs ls rs) s) ∧
    (∀ l r : Tuple C V, (joinedTuple l r).cells = l.cells ++ r.cells ∧
      (joinedTuple l r).specs = l.specs ++ r.specs) ∧
    ∀ s, (∀ trx, StopsAtError (errors s) ((operator (noted left) (noted right)).openOperator trx s)) ∧
      StopsAtError (errors s) ((operator (noted left) (noted right)).next s) := by
  refine ⟨?_, fun l r => ⟨cells_joinedTuple l r, specs_joinedTuple l r⟩,
    fun s => ⟨openOperator_stops left s, next_stops left right s⟩⟩
  rintro trx ls rs s ⟨L, hl⟩ ⟨R, hr⟩
  exact ⟨replay L R, hl, hr⟩

/-- A row with one number. -/
def numberTuple (n : Nat) : Tuple Unit Nat := ⟨1, fun _ => .ok n, fun _ => .ok (), fun _ => .ok n⟩

/-- A join of a join: two rows, three rows, one row. -/
theorem join_replays_nested : Replays
    (operator (operator (scan [numberTuple 1, numberTuple 2]) (scan [numberTuple 3, numberTuple 4, numberTuple 5]))
      (scan [numberTuple 6])) ()
    (pairs (pairs [numberTuple 1, numberTuple 2] [numberTuple 3, numberTuple 4, numberTuple 5]) [numberTuple 6])
    ⟨⟨([], numberTuple 0), ([], numberTuple 0), (), true, true⟩, ([], numberTuple 0), (), true, true⟩ :=
  (join_replays _ _).1 _ _ _ _ ((join_replays _ _).1 _ _ _ _ (scan_replays _ _ _) (scan_replays _ _ _))
    (scan_replays _ _ _)

end NestedLoopJoin

end Miniob.Exec
