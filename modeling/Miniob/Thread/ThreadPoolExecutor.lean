/-
  The thread pool that serves the requests of all clients (`ThreadPoolExecutor` in
  src/deps/common/thread/thread_pool_executor.cpp over `SimpleQueue`).

  1. A step of the system is one access to what the threads share: `state_`, the queue, `threads_`, a counter.  So
     the calls of `execute` and the loops of the threads interleave in any way.
  2. `Exact`: tasks are started in the order in which they were pushed, each is with exactly one thread until it has
     been run, and the counters and sizes are what they say (`tasks_exact`).
  3. A thread leaves if it reads a state other than RUNNING and then finds the queue empty, so a core thread that is
     there at the start runs all that is pushed before `shutdown` (`shutdown_finishes_tasks`).  Without one this fails:
     `init` sets the state behind its loop, and a thread that reads it before is gone (the example).

  Left out: threads that cannot be created, the names of threads, and the flags that nothing reads.
-/
import Mathlib.Data.List.Basic

namespace Miniob.Thread

/-! ## The pool -/

/-- `state_` is NEW in the first two: in the loop of `init`, and behind it. -/
inductive State where
  | creating
  | created
  | running
  | terminating
  deriving DecidableEq

/-- Where `thread_func` is. -/
inductive Phase (Task : Type) where
  | starting
  | looping
  | popping
  | popped (task : Task)
  | running (task : Task)
  /-- Before it reads `state_`. -/
  | checking
  /-- It has read a state other than RUNNING. -/
  | stopping
  | leaving

/-- An entry of `threads_`. -/
structure ThreadData (Task : Type) where
  coreThread : Bool
  phase : Phase Task

/-- Where a call of `execute` is, with what it has read. -/
inductive Call (Task : Type) where
  | accepted (task : Task)
  | pushed
  | sized (taskSize : Nat)
  | counted (taskSize poolSize : Nat)
  | extending
  /-- In `extend_thread`, which holds `lock_`. -/
  | locked (taskSize : Nat)

/-- The last three fields are history: the tasks that have been pushed, those that have been run, and how many had
    been pushed when `shutdown` was called. -/
structure Pool (Task : Type) where
  state : State
  workQueue : List Task
  threads : List (ThreadData Task)
  calls : List (Call Task)
  activeCount : Int
  taskCount : Int
  pushed : List Task
  finished : List Task
  early : Nat

section Locks

variable {Task : Type}

def Phase.needsLock : Phase Task → Bool
  | .starting | .leaving => true
  | _ => false

def Call.needsLock : Call Task → Bool
  | .extending => true
  | _ => false

def Call.holdsLock : Call Task → Bool
  | .locked _ => true
  | _ => false

end Locks

namespace Pool

variable {Task : Type}

def new : Pool Task := ⟨.creating, [], [], [], 0, 0, [], [], 0⟩

/-- Of `lock_`; the other sections under it are single steps. -/
def lockHeld (s : Pool Task) : Bool := s.calls.any Call.holdsLock

/-- `create_thread_locked`. -/
def createThread (s : Pool Task) (coreThread : Bool) : Pool Task :=
  { s with threads := s.threads ++ [⟨coreThread, .starting⟩] }

/-- The next step of `thread_func` without its entry, and the entry behind it, or `none` if the thread is gone.
    `expired` is what the clock says. -/
def nextThread (s : Pool Task) (expired : Bool) : ThreadData Task → Option (ThreadData Task) × Pool Task
  | ⟨core, .starting⟩ => (some ⟨core, .looping⟩, s)
  | ⟨core, .looping⟩ => (some ⟨core, if core || !expired then .popping else .leaving⟩, s)
  | ⟨core, .popping⟩ =>
    match s.workQueue with
    | [] => (some ⟨core, .checking⟩, s)
    | task :: workQueue => (some ⟨core, .popped task⟩, { s with workQueue })
  | ⟨core, .popped task⟩ => (some ⟨core, .running task⟩, { s with activeCount := s.activeCount + 1 })
  | ⟨core, .running task⟩ =>
    (some ⟨core, .checking⟩, { s with
      activeCount := s.activeCount - 1
      taskCount := s.taskCount + 1
      finished := s.finished ++ [task] })
  | ⟨core, .checking⟩ => (some ⟨core, if s.state = .running then .looping else .stopping⟩, s)
  | ⟨core, .stopping⟩ => (some ⟨core, if s.workQueue.isEmpty then .leaving else .looping⟩, s)
  | ⟨_, .leaving⟩ => (none, s)

/-- The next step of `execute`, in the same way; `none` if it returns. -/
def nextCall (maxPoolSize : Nat) (s : Pool Task) : Call Task → Option (Call Task) × Pool Task
  | .accepted task => (some .pushed, { s with workQueue := s.workQueue ++ [task], pushed := s.pushed ++ [task] })
  | .pushed => (some (.sized s.workQueue.length), s)
  | .sized taskSize => (some (.counted taskSize s.threads.length), s)
  | .counted taskSize poolSize => (if (taskSize : Int) > poolSize - s.activeCount then some .extending else none, s)
  | .extending => (if s.threads.length ≥ maxPoolSize then none else some (.locked s.workQueue.length), s)
  | .locked taskSize =>
    (none, if (taskSize : Int) ≤ s.threads.length - s.activeCount then s else s.createThread false)

/-- The element at a position is replaced or taken out. -/
def put {α : Type} (l : List α) (i : Nat) : Option α → List α
  | some a => l.set i a
  | none => l.eraseIdx i

/-- One of a list takes its next step, unless it is not there or waits for `lock_`. -/
def stepAt {α : Type} (s : Pool Task) (l : List α) (i : Nat) (needsLock : α → Bool) (next : α → Option α × Pool Task)
    (write : List α → Pool Task → Pool Task) : Option (Pool Task) :=
  match l[i]? with
  | none => none
  | some a => if needsLock a && s.lockHeld then none else some (write (put l i (next a).1) (next a).2)

def stepThread (s : Pool Task) (i : Nat) (expired : Bool) : Option (Pool Task) :=
  s.stepAt s.threads i (fun thread => thread.phase.needsLock) (s.nextThread expired) fun threads s => { s with threads }

def stepCall (maxPoolSize : Nat) (s : Pool Task) (i : Nat) : Option (Pool Task) :=
  s.stepAt s.calls i Call.needsLock (s.nextCall maxPoolSize) fun calls s => { s with calls }

end Pool

/-- What happens next; `i` is the number of a thread or a call. -/
inductive Action (Task : Type) where
  /-- A round of the loop of `init`. -/
  | createThread
  /-- The loop of `init` ends. -/
  | created
  /-- `init` sets the state. -/
  | start
  | shutdown
  /-- `execute` reads the state, and returns -1 if it is not RUNNING. -/
  | execute (task : Task)
  | call (i : Nat)
  | thread (i : Nat) (expired : Bool)

namespace Pool

variable {Task : Type} (corePoolSize maxPoolSize : Nat)

/-- `none` where the action cannot happen. -/
def step (s : Pool Task) : Action Task → Option (Pool Task)
  | .createThread =>
    if s.state = .creating ∧ s.threads.length < corePoolSize then some (s.createThread true) else none
  | .created =>
    if s.state = .creating ∧ corePoolSize ≤ s.threads.length then some { s with state := .created } else none
  | .start => if s.state = .created then some { s with state := .running } else none
  | .shutdown =>
    some (if s.state = .running then { s with state := .terminating, early := s.pushed.length } else s)
  | .execute task => some (if s.state = .running then { s with calls := s.calls ++ [.accepted task] } else s)
  | .call i => s.stepCall maxPoolSize i
  | .thread i expired => s.stepThread i expired

/-- The states that the interleavings lead to whose steps all meet `ok`. -/
inductive Reachable (ok : Pool Task → Action Task → Prop) : Pool Task → Prop where
  | new : Reachable ok .new
  | step {s s' : Pool Task} (a : Action Task) : Reachable ok s → ok s a →
      s.step corePoolSize maxPoolSize a = some s' → Reachable ok s'

variable {corePoolSize maxPoolSize}

/-! ## One step -/

/-- An element that is there splits the list. -/
theorem exists_split {α : Type} {l : List α} {i : Nat} {a : α} (h : l[i]? = some a) :
    ∃ front back, l = front ++ a :: back ∧ ∀ o, put l i o = front ++ o.toList ++ back := by
  obtain ⟨hi, rfl⟩ := List.getElem?_eq_some_iff.mp h
  refine ⟨l.take i, l.drop (i + 1), ?_, fun o => ?_⟩
  · rw [List.getElem_cons_drop, List.take_append_drop]
  · cases o with
    | none => rw [put, List.eraseIdx_eq_take_drop_succ, Option.toList_none, List.append_nil]
    | some b => rw [put, List.set_eq_take_append_cons_drop, if_pos hi, Option.toList_some, List.append_assoc]; rfl

variable {s s' : Pool Task}

/-- A step changes one element, or takes it out, and leaves the others. -/
theorem stepAt_split {α : Type} {l : List α} {i : Nat} {needsLock : α → Bool} {next : α → Option α × Pool Task}
    {write : List α → Pool Task → Pool Task} (h : s.stepAt l i needsLock next write = some s') :
    ∃ front a back, l = front ++ a :: back ∧ (needsLock a = true → s.lockHeld = false) ∧
      s' = write (front ++ (next a).1.toList ++ back) (next a).2 := by
  unfold stepAt at h
  split at h
  case h_1 => cases h
  case h_2 a ha =>
    obtain ⟨front, back, hsplit, hput⟩ := exists_split ha
    refine ⟨front, a, back, hsplit, ?_⟩
    split at h
    · cases h
    · rename_i hlock
      rw [hput] at h
      exact ⟨fun hneeds => by simpa [hneeds] using hlock, (Option.some.inj h).symm⟩

/-! ## What the pool keeps -/

/-- The task that a thread has taken and not yet run. -/
def task : ThreadData Task → Option Task
  | ⟨_, .popped task⟩ | ⟨_, .running task⟩ => some task
  | _ => none

def isActive : ThreadData Task → Bool
  | ⟨_, .running _⟩ => true
  | _ => false

/-- What the counters and the lists say of each other. -/
structure Exact (maxPoolSize : Nat) (s : Pool Task) : Prop where
  /-- Each task is in the queue, with a thread or finished. -/
  tasks : ∃ started, s.pushed = started ++ s.workQueue ∧ started.Perm (s.finished ++ s.threads.filterMap task)
  /-- `active_count_` is the number of threads with a task. -/
  active : s.activeCount = s.threads.countP isActive
  /-- `task_count_` is the number of tasks that are finished. -/
  counted : s.taskCount = s.finished.length
  /-- No more threads than allowed. -/
  size : s.threads.length ≤ maxPoolSize
  /-- Nobody calls `execute` before `init` is done. -/
  creating : s.state = .creating → s.calls = []
  /-- One call at a time holds the lock. -/
  lock : s.calls.countP Call.holdsLock ≤ 1
  /-- Who holds the lock has room for a thread. -/
  room : s.lockHeld = true → s.threads.length < maxPoolSize
  /-- The tasks given before the shutdown are among those given. -/
  early : s.early ≤ s.pushed.length

theorem lockHeld_eq (s : Pool Task) : s.lockHeld = decide (0 < s.calls.countP Call.holdsLock) := by
  rw [lockHeld, Bool.eq_iff_iff, decide_eq_true_iff, List.countP_pos_iff, List.any_eq_true]

/-- A step of a thread that has no task, and takes none, changes nothing that counts. -/
theorem Exact.idle (h : Exact maxPoolSize s) {front back : List (ThreadData Task)} {a : ThreadData Task}
    (hthreads : s.threads = front ++ a :: back) (ha : task a = none ∧ isActive a = false)
    {o : Option (ThreadData Task)} (ho : ∀ b ∈ o, task b = none ∧ isActive b = false) :
    Exact maxPoolSize { s with threads := front ++ o.toList ++ back } := by
  have hsame : (front ++ o.toList ++ back).filterMap task = s.threads.filterMap task ∧
      (front ++ o.toList ++ back).countP isActive = s.threads.countP isActive ∧
      (front ++ o.toList ++ back).length ≤ s.threads.length := by
    rw [hthreads]
    cases o with
    | none => simp [ha]
    | some b => simp [ha, ho b rfl]
  obtain ⟨htasks, hactives, hlength⟩ := hsame
  exact { h with
    tasks := htasks.symm ▸ h.tasks
    active := hactives.symm ▸ h.active
    size := Nat.le_trans hlength h.size
    room := fun hheld => Nat.lt_of_le_of_lt hlength (h.room hheld) }

/-- A task goes from the queue to one thread, and from there to those that are finished. -/
theorem Exact.thread {i : Nat} {expired : Bool} (h : Exact maxPoolSize s) (hs : s.stepThread i expired = some s') :
    Exact maxPoolSize s' := by
  obtain ⟨front, ⟨core, phase⟩, back, hthreads, -, rfl⟩ := stepAt_split hs
  have hidle : ∀ p : Phase Task, p = .looping ∨ p = .popping ∨ p = .checking ∨ p = .stopping ∨ p = .leaving →
      ∀ b ∈ some (⟨core, p⟩ : ThreadData Task), task b = none ∧ isActive b = false := by
    rintro p hp b ⟨⟩
    rcases hp with rfl | rfl | rfl | rfl | rfl <;> exact ⟨rfl, rfl⟩
  -- the sums over the threads, with this one apart
  obtain ⟨started, hpushed, hperm⟩ := h.tasks
  have hactive := h.active
  have hsize := h.size
  have hroom := h.room
  rw [hthreads] at hperm hactive hsize hroom
  simp only [List.filterMap_append, List.countP_append, List.countP_cons, List.length_append, List.length_cons]
    at hperm hactive hsize hroom
  cases phase with
  | starting => exact h.idle hthreads ⟨rfl, rfl⟩ (hidle _ (by simp))
  | looping => exact h.idle hthreads ⟨rfl, rfl⟩ (hidle _ (by split <;> simp))
  | checking => exact h.idle hthreads ⟨rfl, rfl⟩ (hidle _ (by split <;> simp))
  | stopping => exact h.idle hthreads ⟨rfl, rfl⟩ (hidle _ (by split <;> simp))
  | leaving => exact h.idle hthreads ⟨rfl, rfl⟩ nofun
  | popping =>
    cases hqueue : s.workQueue with
    | nil =>
      rw [show s.nextThread expired ⟨core, .popping⟩ = (some ⟨core, .checking⟩, s) by rw [nextThread, hqueue]]
      exact h.idle hthreads ⟨rfl, rfl⟩ (hidle _ (by simp))
    | cons t queue =>
      rw [show s.nextThread expired ⟨core, .popping⟩ = (some ⟨core, .popped t⟩, { s with workQueue := queue }) by
        rw [nextThread, hqueue]]
      refine { h with tasks := ⟨started ++ [t], ?_, ?_⟩, active := ?_, size := ?_, room := ?_ }
      · rw [hpushed, hqueue, List.append_assoc, List.singleton_append]
      · have hmiddle : (t :: (s.finished ++ (front.filterMap task ++ back.filterMap task))).Perm
            (s.finished ++ (front.filterMap task ++ t :: back.filterMap task)) :=
          List.perm_middle.symm.trans (List.perm_middle.symm.append_left _)
        simpa [task, List.filterMap_cons] using (List.perm_append_singleton t started).trans ((hperm.cons t).trans hmiddle)
      all_goals
        simp [isActive] at hactive hsize hroom ⊢
        first | exact hroom | omega
  | popped t =>
    refine { h with tasks := ⟨started, hpushed, ?_⟩, active := ?_, size := ?_, room := ?_ }
    · simpa [nextThread, task, List.filterMap_cons] using hperm
    all_goals
      simp [nextThread, isActive, List.countP_cons] at hactive hsize hroom ⊢
      first | exact hroom | omega
  | running t =>
    refine { h with
      tasks := ⟨started, hpushed, ?_⟩
      active := ?_
      counted := by simpa [nextThread] using h.counted
      size := ?_
      room := ?_ }
    · have hmiddle : (s.finished ++ (front.filterMap task ++ t :: back.filterMap task)).Perm
          (s.finished ++ t :: (front.filterMap task ++ back.filterMap task)) := List.perm_middle.append_left _
      simpa [nextThread, task, List.filterMap_cons] using hperm.trans hmiddle
    all_goals
      simp [nextThread, isActive] at hactive hsize hroom ⊢
      first | exact hroom | omega

/-- Where a call stands says nothing about the tasks. -/
theorem Exact.withCalls (h : Exact maxPoolSize s) {calls : List (Call Task)} (hstate : s.state ≠ .creating)
    (hle : calls.countP Call.holdsLock ≤ s.calls.countP Call.holdsLock) : Exact maxPoolSize { s with calls } := by
  refine { h with
    creating := fun hs => absurd hs hstate
    lock := Nat.le_trans hle h.lock
    room := fun hheld => h.room ?_ }
  rw [lockHeld_eq, decide_eq_true_iff] at hheld ⊢
  exact Nat.lt_of_lt_of_le hheld hle

/-- A new thread has no task. -/
theorem Exact.createThread (h : Exact maxPoolSize s) (hroom : s.threads.length < maxPoolSize)
    (hfree : s.lockHeld = false) (core : Bool) : Exact maxPoolSize (s.createThread core) := by
  refine { h with tasks := ?_, active := ?_, size := ?_, room := fun hheld => ?_ }
  · simpa [Pool.createThread, task, List.filterMap_cons] using h.tasks
  · simpa [Pool.createThread, isActive] using h.active
  · show (s.threads ++ [_]).length ≤ maxPoolSize
    rw [List.length_append, List.length_singleton]
    omega
  · exact absurd (hfree.symm.trans hheld) Bool.false_ne_true

/-- A call pushes its task once, and makes a thread only while it holds the lock. -/
theorem Exact.call {i : Nat} (h : Exact maxPoolSize s) (hs : s.stepCall maxPoolSize i = some s') :
    Exact maxPoolSize s' := by
  obtain ⟨front, call, back, hcalls, hneeds, rfl⟩ := stepAt_split hs
  have hstate : s.state ≠ .creating := by
    intro hs
    have hnil := h.creating hs
    rw [hcalls] at hnil
    simp at hnil
  have hone := h.lock
  simp only [hcalls, List.countP_append, List.countP_cons] at hone
  cases call with
  | accepted t =>
    obtain ⟨started, hpushed, hperm⟩ := h.tasks
    have hpush : Exact maxPoolSize { s with workQueue := s.workQueue ++ [t], pushed := s.pushed ++ [t] } :=
      { h with
        tasks := ⟨started, by rw [hpushed, List.append_assoc], hperm⟩
        early := Nat.le_trans h.early (List.length_append ▸ Nat.le_add_right _ _) }
    exact hpush.withCalls hstate (by simp [nextCall, hcalls, Call.holdsLock])
  | pushed => exact h.withCalls hstate (by simp [nextCall, hcalls, Call.holdsLock])
  | sized taskSize => exact h.withCalls hstate (by simp [nextCall, hcalls, Call.holdsLock])
  | counted taskSize poolSize =>
    refine h.withCalls hstate ?_
    show (front ++ (if _ then some Call.extending else none).toList ++ back).countP _ ≤ _
    split <;> simp [hcalls, Call.holdsLock]
  | extending =>
    -- the lock is free
    have hfree := hneeds rfl
    show Exact maxPoolSize { s with
      calls := front ++ (if s.threads.length ≥ maxPoolSize then none else some (.locked s.workQueue.length)).toList ++ back }
    split
    · exact h.withCalls hstate (by simp [hcalls, Call.holdsLock])
    · rename_i hroom
      rw [lockHeld_eq, decide_eq_false_iff_not, hcalls, List.countP_append, List.countP_cons] at hfree
      exact { h with
        creating := fun hs => absurd hs hstate
        lock := by
          show (front ++ [Call.locked s.workQueue.length] ++ back).countP Call.holdsLock ≤ 1
          rw [List.append_assoc, List.countP_append, List.singleton_append, List.countP_cons_of_pos rfl]
          omega
        room := fun _ => Nat.lt_of_not_le hroom }
  | locked taskSize =>
    have hheld : s.lockHeld = true := by simp [lockHeld, hcalls, Call.holdsLock]
    have hback : Exact maxPoolSize { s with calls := front ++ back } :=
      h.withCalls hstate (by simp [hcalls, List.countP_cons])
    have hfree : ({ s with calls := front ++ back } : Pool Task).lockHeld = false := by
      rw [lockHeld_eq, decide_eq_false_iff_not, List.countP_append]
      rw [show (Call.locked taskSize : Call Task).holdsLock = true from rfl, if_pos rfl] at hone
      omega
    show Exact maxPoolSize { (if (taskSize : Int) ≤ s.threads.length - s.activeCount then s else s.createThread false) with
      calls := front ++ [] ++ back }
    rw [List.append_nil]
    split
    · exact hback
    · exact hback.createThread (h.room hheld) hfree false

/-- The step lemma. -/
theorem Exact.step (h : Exact maxPoolSize s) (hle : corePoolSize ≤ maxPoolSize) {a : Action Task}
    (hs : s.step corePoolSize maxPoolSize a = some s') : Exact maxPoolSize s' := by
  cases a with
  | createThread =>
    obtain ⟨⟨hstate, hlt⟩, hs⟩ := Option.ite_none_right_eq_some.mp hs
    obtain rfl := Option.some.inj hs
    refine h.createThread (by omega) ?_ true
    rw [lockHeld, h.creating hstate]
    rfl
  | created =>
    obtain rfl := Option.some.inj (Option.ite_none_right_eq_some.mp hs).2
    exact { h with creating := nofun }
  | start =>
    obtain rfl := Option.some.inj (Option.ite_none_right_eq_some.mp hs).2
    exact { h with creating := nofun }
  | shutdown =>
    obtain rfl := Option.some.inj hs
    split
    · exact { h with creating := nofun, early := Nat.le_refl _ }
    · exact h
  | execute t =>
    obtain rfl := Option.some.inj hs
    split
    · rename_i hrunning
      exact h.withCalls (by rw [hrunning]; nofun) (by simp [Call.holdsLock])
    · exact h
  | call i => exact h.call hs
  | thread i expired => exact h.thread hs

/-! ## Runs -/

variable {ok : Pool Task → Action Task → Prop}

theorem Reachable.exact (hle : corePoolSize ≤ maxPoolSize) (h : Reachable corePoolSize maxPoolSize ok s) :
    Exact maxPoolSize s := by
  induction h with
  | new => exact ⟨⟨[], rfl, .nil⟩, rfl, rfl, Nat.zero_le _, fun _ => rfl, Nat.zero_le _, nofun, Nat.zero_le _⟩
  | step a _ _ hs ih => exact ih.step hle hs

/-- **No task is lost and none is run twice**, in every interleaving; they are started in the order in which they
    were pushed. -/
theorem tasks_exact (hle : corePoolSize ≤ maxPoolSize) (h : Reachable corePoolSize maxPoolSize (fun _ _ => True) s) :
    (∃ started, s.pushed = started ++ s.workQueue ∧ started.Perm (s.finished ++ s.threads.filterMap task)) ∧
      s.activeCount = s.threads.countP isActive ∧ s.taskCount = s.finished.length ∧
      s.threads.length ≤ maxPoolSize :=
  have hexact := h.exact hle
  ⟨hexact.tasks, hexact.active, hexact.counted, hexact.size⟩

theorem tasks_exact_popped : ∃ s : Pool Nat, s.threads.filterMap task = [7] ∧
    ∃ started, s.pushed = started ++ s.workQueue ∧ started.Perm (s.finished ++ s.threads.filterMap task) := by
  have h : Reachable 1 1 (fun _ _ => True) (Pool.new : Pool Nat) := .new
  have h := ((h.step .createThread trivial rfl).step .created trivial rfl).step .start trivial rfl
  have h := (h.step (.execute 7) trivial rfl).step (.call 0) trivial rfl
  iterate 3 replace h := h.step (.thread 0 false) trivial rfl
  exact ⟨_, rfl, (tasks_exact (Nat.le_refl 1) h).1⟩

/-- A core thread that does not leave before the queue is empty. -/
def Stays (state : State) (thread : ThreadData Task) : Prop :=
  thread.coreThread = true ∧ thread.phase ≠ .leaving ∧ (state = .running → thread.phase ≠ .stopping)

/-- When `init` sets the state, some core thread has not read it yet. -/
def StartsReady (s : Pool Task) : Action Task → Prop
  | .start => ∃ thread ∈ s.threads, Stays .running thread
  | _ => True

/-- A core thread is there, until the tasks that were pushed before `shutdown` have been started. -/
def Served (s : Pool Task) : Prop :=
  s.state = .running ∨ s.state = .terminating ∧ s.pushed.length < s.early + s.workQueue.length →
    ∃ thread ∈ s.threads, Stays s.state thread

/-- A core thread leaves only if it has seen the state change and then the queue empty. -/
theorem Stays.next {a : ThreadData Task} (h : Stays s.state a) (expired : Bool) :
    (∃ b ∈ (s.nextThread expired a).1, Stays s.state b) ∨ s.state ≠ .running ∧ s.workQueue = [] := by
  obtain ⟨core, phase⟩ := a
  obtain ⟨rfl : core = true, hleaving, hstopping⟩ := h
  cases phase with
  | leaving => exact absurd rfl hleaving
  | popping => cases hqueue : s.workQueue <;> simp [nextThread, hqueue, Stays]
  | checking =>
    by_cases hrunning : s.state = .running
    · simp [nextThread, hrunning, Stays]
    · simp [nextThread, hrunning, Stays]
  | stopping =>
    have hrunning : s.state ≠ .running := fun hs => hstopping hs rfl
    cases hqueue : s.workQueue with
    | nil => exact Or.inr ⟨hrunning, rfl⟩
    | cons t queue => simp [nextThread, hqueue, Stays]
  | _ => simp [nextThread, Stays]

theorem nextThread_data {a : ThreadData Task} (expired : Bool) :
    (s.nextThread expired a).2.state = s.state ∧ (s.nextThread expired a).2.pushed = s.pushed ∧
      (s.nextThread expired a).2.early = s.early ∧
      (s.nextThread expired a).2.workQueue.length ≤ s.workQueue.length := by
  obtain ⟨core, phase⟩ := a
  cases phase with
  | popping => cases hqueue : s.workQueue <;> simp [nextThread, hqueue]
  | _ => exact ⟨rfl, rfl, rfl, Nat.le_refl _⟩

/-- Some core thread stays as long as there is something to start. -/
theorem Served.step (h : Served s) (hexact : Exact maxPoolSize s) {a : Action Task} (hok : StartsReady s a)
    (hs : s.step corePoolSize maxPoolSize a = some s') : Served s' := by
  cases a with
  | createThread =>
    obtain ⟨⟨hstate, -⟩, hs⟩ := Option.ite_none_right_eq_some.mp hs
    obtain rfl := Option.some.inj hs
    rintro (hrunning | ⟨hterminating, -⟩)
    · cases hstate.symm.trans hrunning
    · cases hstate.symm.trans hterminating
  | created =>
    obtain rfl := Option.some.inj (Option.ite_none_right_eq_some.mp hs).2
    rintro (hrunning | ⟨hterminating, -⟩)
    · cases hrunning
    · cases hterminating
  | start =>
    obtain rfl := Option.some.inj (Option.ite_none_right_eq_some.mp hs).2
    exact fun _ => hok
  | shutdown =>
    obtain rfl := Option.some.inj hs
    split
    · rename_i hrunning
      obtain ⟨thread, hmem, hcore, hleaving, -⟩ := h (Or.inl hrunning)
      exact fun _ => ⟨thread, hmem, hcore, hleaving, nofun⟩
    · exact h
  | execute t =>
    obtain rfl := Option.some.inj hs
    split <;> exact h
  | call i =>
    change s.stepCall maxPoolSize i = some s' at hs
    obtain ⟨front, call, back, -, -, rfl⟩ := stepAt_split hs
    cases call with
    | accepted t =>
      intro hcase
      refine h (hcase.imp_right fun hlate => ⟨hlate.1, ?_⟩)
      have hlt := hlate.2
      simp only [nextCall, List.length_append, List.length_singleton] at hlt
      omega
    | locked taskSize =>
      show Served { (if (taskSize : Int) ≤ s.threads.length - s.activeCount then s else s.createThread false) with
        calls := _ }
      split
      · exact h
      · intro hcase
        obtain ⟨thread, hmem, hstays⟩ := h hcase
        exact ⟨thread, List.mem_append_left _ hmem, hstays⟩
    | _ => exact h
  | thread i expired =>
    change s.stepThread i expired = some s' at hs
    obtain ⟨front, a, back, hthreads, -, rfl⟩ := stepAt_split hs
    obtain ⟨hstate, hpushed, hearly, hqueue⟩ := nextThread_data (s := s) (a := a) expired
    intro hcase
    change (s.nextThread expired a).2.state = _ ∨ (s.nextThread expired a).2.state = _ ∧
      (s.nextThread expired a).2.pushed.length <
        (s.nextThread expired a).2.early + (s.nextThread expired a).2.workQueue.length at hcase
    show ∃ thread ∈ front ++ (s.nextThread expired a).1.toList ++ back, Stays (s.nextThread expired a).2.state thread
    rw [hstate, hpushed, hearly] at hcase
    rw [hstate]
    have hbefore : s.state = .running ∨ s.state = .terminating ∧ s.pushed.length < s.early + s.workQueue.length :=
      hcase.imp_right fun hlate => ⟨hlate.1, Nat.lt_of_lt_of_le hlate.2 (Nat.add_le_add_left hqueue _)⟩
    obtain ⟨thread, hmem, hstays⟩ := h hbefore
    rw [hthreads] at hmem
    simp only [List.mem_append, List.mem_cons] at hmem ⊢
    rcases hmem with hmem | rfl | hmem
    · exact ⟨thread, Or.inl (Or.inl hmem), hstays⟩
    · rcases hstays.next expired with ⟨b, hb, hstays'⟩ | ⟨hstopped, hempty⟩
      · exact ⟨b, Or.inl (Or.inr (Option.mem_toList.mpr hb)), hstays'⟩
      · have hle := hexact.early
        rcases hcase with hrunning | ⟨-, hlt⟩
        · exact absurd hrunning hstopped
        · rw [hempty, List.length_nil, Nat.le_zero] at hqueue
          omega
    · exact ⟨thread, Or.inr hmem, hstays⟩

theorem Reachable.served (hle : corePoolSize ≤ maxPoolSize)
    (h : Reachable corePoolSize maxPoolSize StartsReady s) : Served s := by
  induction h with
  | new => exact fun hcase => by simp [Pool.new] at hcase
  | step a hs hok hstep ih => exact ih.step (hs.exact hle) hok hstep

/-- **Shutdown.**  Where `await_termination` returns, all that was pushed before `shutdown` has been run, each task
    once; only what was pushed behind it can be left. -/
theorem shutdown_finishes_tasks (hle : corePoolSize ≤ maxPoolSize)
    (h : Reachable corePoolSize maxPoolSize StartsReady s) (hstate : s.state = .terminating)
    (hthreads : s.threads = []) :
    ∃ done, s.pushed = done ++ s.workQueue ∧ done.Perm s.finished ∧ s.early ≤ done.length := by
  obtain ⟨started, hpushed, hperm⟩ := (h.exact hle).tasks
  refine ⟨started, hpushed, by simpa [hthreads] using hperm, ?_⟩
  by_contra hlt
  have hlate : s.pushed.length < s.early + s.workQueue.length := by
    rw [hpushed, List.length_append]
    omega
  obtain ⟨thread, hmem, -⟩ := h.served hle (Or.inr ⟨hstate, hlate⟩)
  rw [hthreads] at hmem
  exact List.not_mem_nil hmem

/-- One task is pushed, and then the pool is shut down. -/
theorem shutdown_finishes_tasks_one : ∃ s : Pool Nat, s.pushed = [7] ∧
    ∃ done, s.pushed = done ++ s.workQueue ∧ done.Perm s.finished ∧ s.early ≤ done.length := by
  have h : Reachable 1 1 StartsReady (Pool.new : Pool Nat) := .new
  have h := (h.step .createThread trivial rfl).step .created trivial rfl
  have h := h.step .start ⟨_, List.mem_singleton_self _, rfl, nofun, nofun⟩ rfl
  have h := ((h.step (.execute 7) trivial rfl).step (.call 0) trivial rfl).step .shutdown trivial rfl
  iterate 8 replace h := h.step (.thread 0 false) trivial rfl
  exact ⟨_, rfl, shutdown_finishes_tasks (Nat.le_refl 1) h rfl rfl⟩

/-- A core thread that reads the state while `init` still runs: the pool is left without a thread. -/
example : ([.createThread, .created] ++ List.replicate 6 (.thread 0 false) ++ [.start] : List (Action Nat)).foldlM
    (step 1 1) .new = some { (new : Pool Nat) with state := .running } := rfl

end Pool

end Miniob.Thread
