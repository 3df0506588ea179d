/-
  The reader-writer lock of the frames (`RecursiveSharedMutex` in src/deps/common/lang/mutex.cpp, as it is built with
  CONCURRENCY).

  1. Each method is one section under `mutex_`, up to a `wait`: there the thread sleeps until it is notified, or wakes
     up without a reason, and then runs the section again.  So a step of the system is a section, with the thread that
     `notify_one` picks, or a wake-up.
  2. The asserts of `Frame::read_latch` and `Frame::write_latch` are what the callers owe: who holds the lock for
     writing does not ask for reading, nor the other way round, and only holders unlock (`Admitted`).
  3. `Inv` ties the four counters to who holds the lock, and says who may sleep: a reader only under a writer, and a
     writer only where somebody holds the lock or another writer has been notified.  This is why no wake-up is lost.
  4. From it: exclusion (`mutex_exclusive`); a thread that sleeps has somebody to wait for who is not asleep
     (`mutex_progress`); and if the holders unlock and nobody new comes, everybody is served (`mutex_serves`), in
     whatever order.

  Left out: counters beyond the range of `int`.
-/
import Mathlib.Data.Finset.Card
import Mathlib.Data.List.Basic
import Mathlib.Logic.Relation

namespace Miniob.Lang

/-! ## The lock -/

structure RecursiveSharedMutex (T : Type) where
  sharedLockCount : Int
  exclusiveLockCount : Int
  /-- `none` is `thread::id()`. -/
  recursiveOwner : Option T
  recursiveCount : Int

namespace RecursiveSharedMutex

def new {T : Type} : RecursiveSharedMutex T := ⟨0, 0, none, 0⟩

variable {T : Type} [DecidableEq T] (m : RecursiveSharedMutex T)

/-- A round of the loop of `lock_shared` and what follows it; `none` is the wait. -/
def lockShared : Option (RecursiveSharedMutex T) :=
  if m.exclusiveLockCount > 0 then none else some { m with sharedLockCount := m.sharedLockCount + 1 }

def tryLockShared : Bool × RecursiveSharedMutex T :=
  if m.exclusiveLockCount = 0 then (true, { m with sharedLockCount := m.sharedLockCount + 1 }) else (false, m)

/-- The new lock, and whether one writer is notified. -/
def unlockShared : RecursiveSharedMutex T × Bool :=
  let m := { m with sharedLockCount := m.sharedLockCount - 1 }
  (m, decide (m.sharedLockCount = 0))

/-- A round of the loop of `lock` and what follows it. -/
def lock (me : T) : Option (RecursiveSharedMutex T) :=
  if m.sharedLockCount > 0 ∨ m.exclusiveLockCount > 0 then
    if m.recursiveOwner = some me then some { m with recursiveCount := m.recursiveCount + 1 } else none
  else some { m with
    recursiveOwner := some me, recursiveCount := 1, exclusiveLockCount := m.exclusiveLockCount + 1 }

/-- The new lock, and whether all readers and one writer are notified. -/
def unlock (me : T) : RecursiveSharedMutex T × Bool :=
  if m.recursiveOwner = some me ∧ m.recursiveCount > 1 then ({ m with recursiveCount := m.recursiveCount - 1 }, false)
  else
    let m := { m with recursiveOwner := none, recursiveCount := 0, exclusiveLockCount := m.exclusiveLockCount - 1 }
    (m, decide (m.exclusiveLockCount = 0))

end RecursiveSharedMutex

/-! ## The threads -/

/-- The condition variables, `shared_lock_cv_` and `exclusive_lock_cv_`. -/
inductive Cv where
  | shared
  | exclusive
  deriving DecidableEq

/-- What a thread does: it runs, sleeps at one of the condition variables, or has been woken there. -/
inductive Phase where
  | running
  /-- In a `wait`. -/
  | sleeping (cv : Cv)
  /-- Out of the `wait`, but not yet back in the section. -/
  | woken (cv : Cv)
  deriving DecidableEq

/-- The lock and the threads.  The locks that are held are counted by entries, one for each lock. -/
structure System (T : Type) where
  mutex : RecursiveSharedMutex T
  phase : T → Phase
  readers : List T
  writers : List T

/-- What a thread does next; `picked` is whom the notification wakes. -/
inductive Action (T : Type) where
  | acquire (t : T) (cv : Cv)
  | resume (t : T) (cv : Cv)
  | tryShared (t : T)
  /-- With the thread that `notify_one` picks. -/
  | releaseShared (t : T) (picked : Option T)
  | releaseExclusive (t : T) (picked : Option T)
  /-- A wake-up without a notification. -/
  | wake (t : T) (cv : Cv)

namespace System

def new {T : Type} : System T := ⟨.new, fun _ => .running, [], []⟩

section Steps

variable {T : Type} [DecidableEq T]

def setPhase (s : System T) (t : T) (phase : Phase) : System T :=
  { s with phase := fun u => if u = t then phase else s.phase u }

/-- Run the section of `lock_shared` or of `lock`. -/
def attempt (s : System T) (t : T) (cv : Cv) : System T :=
  match cv with
  | .shared =>
    match s.mutex.lockShared with
    | none => s.setPhase t (.sleeping .shared)
    | some mutex => { s.setPhase t .running with mutex, readers := t :: s.readers }
  | .exclusive =>
    match s.mutex.lock t with
    | none => s.setPhase t (.sleeping .exclusive)
    | some mutex => { s.setPhase t .running with mutex, writers := t :: s.writers }

def notifyOne (s : System T) (picked : Option T) : System T :=
  match picked with
  | none => s
  | some t => s.setPhase t (.woken .exclusive)

def notifyAll (s : System T) : System T :=
  { s with phase := fun t => if s.phase t = .sleeping .shared then .woken .shared else s.phase t }

/-- One step of the system. -/
def apply (s : System T) : Action T → System T
  | .acquire t cv => s.attempt t cv
  | .resume t cv => s.attempt t cv
  | .tryShared t =>
    if s.mutex.tryLockShared.1 then { s with mutex := s.mutex.tryLockShared.2, readers := t :: s.readers } else s
  | .releaseShared t picked =>
    let s' := { s with mutex := s.mutex.unlockShared.1, readers := s.readers.erase t }
    if s.mutex.unlockShared.2 then s'.notifyOne picked else s'
  | .releaseExclusive t picked =>
    let s' := { s with mutex := (s.mutex.unlock t).1, writers := s.writers.erase t }
    if (s.mutex.unlock t).2 then s'.notifyAll.notifyOne picked else s'
  | .wake t cv => s.setPhase t (.woken cv)

/-- `notify_one` picks a thread that sleeps, if there is one. -/
def Picks (s : System T) : Option T → Prop
  | none => ∀ t, s.phase t ≠ .sleeping .exclusive
  | some t => s.phase t = .sleeping .exclusive

/-- What may happen next. -/
def Admitted (s : System T) : Action T → Prop
  | .acquire t .shared => s.phase t = .running ∧ t ∉ s.writers
  | .acquire t .exclusive => s.phase t = .running ∧ t ∉ s.readers
  | .resume t cv => s.phase t = .woken cv
  | .tryShared t => s.phase t = .running ∧ t ∉ s.writers
  | .releaseShared t picked => s.phase t = .running ∧ t ∈ s.readers ∧ s.Picks picked
  | .releaseExclusive t picked => s.phase t = .running ∧ t ∈ s.writers ∧ s.Picks picked
  | .wake t cv => s.phase t = .sleeping cv

/-- The states that threads can bring about. -/
inductive Reachable : System T → Prop where
  | new : Reachable .new
  | step {s : System T} (a : Action T) : Reachable s → s.Admitted a → Reachable (s.apply a)

end Steps

/-! ## The invariant -/

section Invariant

variable {T : Type} {s : System T} {t u : T} {p : Phase} {cv : Cv}

/-- The counters agree with who holds the lock, and who does not run holds nothing. -/
structure Books (s : System T) : Prop where
  /-- One count for each time a reader has locked. -/
  shared : s.mutex.sharedLockCount = s.readers.length
  /-- There is one writer or none, however often it has locked. -/
  exclusive : s.mutex.exclusiveLockCount = if s.writers = [] then 0 else 1
  /-- The depth of the writer. -/
  recursive : s.mutex.recursiveCount = s.writers.length
  /-- The owner is the one who holds the lock exclusively. -/
  owner : ∀ t, s.mutex.recursiveOwner = some t ↔ t ∈ s.writers
  /-- Readers and a writer do not meet. -/
  apart : s.readers = [] ∨ s.writers = []
  /-- A reader sleeps only under a writer. -/
  sleepingShared : ∀ t, s.phase t = .sleeping .shared → s.writers ≠ []
  /-- A thread that sleeps or waits holds nothing. -/
  blocked : ∀ t, s.phase t ≠ .running → t ∉ s.readers ∧ t ∉ s.writers

/-- And a writer sleeps only where the lock is held, or where another one is about to look at it. -/
structure Inv (s : System T) : Prop extends Books s where
  sleepingExclusive : ∀ t, s.phase t = .sleeping .exclusive →
    s.readers ≠ [] ∨ s.writers ≠ [] ∨ ∃ u, s.phase u = .woken .exclusive

/-- Nobody holds the new lock, and nobody sleeps. -/
theorem Inv.new : Inv (System.new : System T) where
  shared := rfl
  exclusive := rfl
  recursive := rfl
  owner _ := ⟨nofun, nofun⟩
  apart := Or.inl rfl
  sleepingShared _ h := nomatch h
  blocked _ h := absurd rfl h
  sleepingExclusive _ h := nomatch h

theorem Books.running_of_reader (h : Books s) (ht : t ∈ s.readers) : s.phase t = .running := by
  by_contra hne
  exact (h.blocked t hne).1 ht

theorem Books.running_of_writer (h : Books s) (ht : t ∈ s.writers) : s.phase t = .running := by
  by_contra hne
  exact (h.blocked t hne).2 ht

theorem Books.writer_unique (h : Books s) (ht : t ∈ s.writers) (hu : u ∈ s.writers) : t = u :=
  Option.some.inj (((h.owner t).mpr ht).symm.trans ((h.owner u).mpr hu))

/-- The exclusive counter says whether there is a writer. -/
theorem Books.exclusive_pos (h : Books s) : s.mutex.exclusiveLockCount > 0 ↔ s.writers ≠ [] := by
  rw [h.exclusive]
  by_cases hw : s.writers = []
  · rw [if_pos hw]
    exact iff_of_false (by omega) (not_not.mpr hw)
  · rw [if_neg hw]
    exact iff_of_true (by omega) hw

/-- The shared counter says whether there are readers. -/
theorem Books.shared_pos (h : Books s) : s.mutex.sharedLockCount > 0 ↔ s.readers ≠ [] := by
  rw [h.shared]
  have hlength := @List.length_eq_zero_iff T s.readers
  constructor
  · intro hpos hnil
    rw [hnil, List.length_nil] at hpos
    omega
  · intro hne
    have : s.readers.length ≠ 0 := fun h0 => hne (hlength.mp h0)
    omega

/-- The thread holds the lock. -/
def Holds (s : System T) (t : T) : Prop := t ∈ s.readers ∨ t ∈ s.writers

theorem Inv.running_of_holds (h : Inv s) (ht : Holds s t) : s.phase t = .running :=
  ht.elim h.running_of_reader h.running_of_writer

/-- Where a thread does not run, the lock is held or a thread is woken. -/
theorem Inv.held_or_woken (h : Inv s) (ht : s.phase t ≠ .running) :
    (∃ u, Holds s u) ∨ ∃ u cv, s.phase u = .woken cv := by
  cases hp : s.phase t with
  | running => exact absurd hp ht
  | woken cv => exact Or.inr ⟨t, cv, hp⟩
  | sleeping cv =>
    cases cv with
    | shared =>
      obtain ⟨u, hu⟩ := List.exists_mem_of_ne_nil _ (h.sleepingShared t hp)
      exact Or.inl ⟨u, Or.inr hu⟩
    | exclusive =>
      rcases h.sleepingExclusive t hp with hr | hw | ⟨u, hu⟩
      · obtain ⟨u, hu⟩ := List.exists_mem_of_ne_nil _ hr
        exact Or.inl ⟨u, Or.inl hu⟩
      · obtain ⟨u, hu⟩ := List.exists_mem_of_ne_nil _ hw
        exact Or.inl ⟨u, Or.inr hu⟩
      · exact Or.inr ⟨u, .exclusive, hu⟩

end Invariant

/-! ## Acquiring -/

section Acquiring

variable {T : Type} [DecidableEq T] {s : System T} {t u : T} {p : Phase} {cv : Cv}

theorem phase_setPhase : (s.setPhase t p).phase u = if u = t then p else s.phase u := rfl

theorem phase_setPhase_self : (s.setPhase t p).phase t = p := if_pos rfl

theorem phase_of_ne_self {q : Phase} (h : (s.setPhase t p).phase u = q) (hne : p ≠ q) : s.phase u = q := by
  rw [phase_setPhase] at h
  by_cases hu : u = t
  · rw [if_pos hu] at h
    exact absurd h hne
  · rwa [if_neg hu] at h

/-- Who does not run behind the step did not run before it. -/
theorem ne_running_setPhase (h : (s.setPhase t .running).phase u ≠ .running) : u ≠ t ∧ s.phase u ≠ .running := by
  rw [phase_setPhase] at h
  by_cases hu : u = t
  · rw [if_pos hu] at h
    exact absurd rfl h
  · rw [if_neg hu] at h
    exact ⟨hu, h⟩

/-- A thread that holds nothing may be stopped. -/
theorem Books.blocked_setPhase (h : Books s) (ht : t ∉ s.readers ∧ t ∉ s.writers)
    (hu : (s.setPhase t p).phase u ≠ .running) : u ∉ s.readers ∧ u ∉ s.writers := by
  by_cases hut : u = t
  · rw [hut]
    exact ht
  · rw [phase_setPhase, if_neg hut] at hu
    exact h.blocked u hu

/-- A round of `lock_shared` succeeds if nobody writes. -/
theorem Books.attempt_shared (h : Books s) : s.attempt t .shared =
    if s.writers = [] then
      { s.setPhase t .running with
        mutex := { s.mutex with sharedLockCount := s.mutex.sharedLockCount + 1 }, readers := t :: s.readers }
    else s.setPhase t (.sleeping .shared) := by
  show (match s.mutex.lockShared with
    | none => _
    | some mutex => _ : System T) = _
  unfold RecursiveSharedMutex.lockShared
  by_cases hw : s.writers = []
  · rw [if_neg (fun hpos => h.exclusive_pos.mp hpos hw), if_pos hw]
  · rw [if_pos (h.exclusive_pos.mpr hw), if_neg hw]

/-- A round of `lock` succeeds if nobody holds the lock, or the thread itself does. -/
theorem Books.attempt_exclusive (h : Books s) : s.attempt t .exclusive =
    if s.readers = [] ∧ s.writers = [] then
      { s.setPhase t .running with
        mutex := { s.mutex with recursiveOwner := some t, recursiveCount := 1,
                                exclusiveLockCount := s.mutex.exclusiveLockCount + 1 },
        writers := t :: s.writers }
    else if t ∈ s.writers then
      { s.setPhase t .running with
        mutex := { s.mutex with recursiveCount := s.mutex.recursiveCount + 1 }, writers := t :: s.writers }
    else s.setPhase t (.sleeping .exclusive) := by
  show (match s.mutex.lock t with
    | none => _
    | some mutex => _ : System T) = _
  unfold RecursiveSharedMutex.lock
  by_cases hfree : s.readers = [] ∧ s.writers = []
  · rw [if_pos hfree, if_neg]
    rintro (hpos | hpos)
    · exact h.shared_pos.mp hpos hfree.1
    · exact h.exclusive_pos.mp hpos hfree.2
  · have hheld : s.mutex.sharedLockCount > 0 ∨ s.mutex.exclusiveLockCount > 0 := by
      rw [h.shared_pos, h.exclusive_pos]
      exact not_and_or.mp hfree
    rw [if_neg hfree, if_pos hheld]
    by_cases ht : t ∈ s.writers
    · rw [if_pos ht, if_pos ((h.owner t).mpr ht)]
    · rw [if_neg ht, if_neg fun howner => ht ((h.owner t).mp howner)]

/-- The reader gets in, or sleeps while a writer holds the lock. -/
theorem Inv.acquire_shared (h : Inv s) (ht : t ∉ s.writers) : Inv (s.attempt t .shared) := by
  rw [h.attempt_shared]
  by_cases hw : s.writers = []
  · rw [if_pos hw]
    refine ⟨⟨?_, h.exclusive, h.recursive, h.owner, Or.inr hw, ?_, ?_⟩, ?_⟩
    · show s.mutex.sharedLockCount + 1 = ((t :: s.readers).length : Int)
      rw [h.shared, List.length_cons]
      omega
    · exact fun u hu => h.sleepingShared u (phase_of_ne_self hu nofun)
    · intro u hu
      obtain ⟨hut, hne⟩ := ne_running_setPhase hu
      obtain ⟨hr, hwr⟩ := h.blocked u hne
      exact ⟨List.not_mem_cons_of_ne_of_not_mem hut hr, hwr⟩
    · exact fun _ _ => Or.inl (List.cons_ne_nil t s.readers)
  · rw [if_neg hw]
    refine ⟨⟨h.shared, h.exclusive, h.recursive, h.owner, h.apart, fun _ _ => hw, ?_⟩, fun _ _ => Or.inr (Or.inl hw)⟩
    have hr : t ∉ s.readers := by
      rw [h.apart.resolve_right hw]
      exact List.not_mem_nil
    exact fun u hu => h.blocked_setPhase ⟨hr, ht⟩ hu

/-- The writer gets in, or sleeps while somebody else holds the lock. -/
theorem Inv.acquire_exclusive (h : Inv s) (ht : t ∉ s.readers) : Inv (s.attempt t .exclusive) := by
  rw [h.attempt_exclusive]
  have hblocked : ∀ u, (s.setPhase t .running).phase u ≠ .running → u ∉ s.readers ∧ u ∉ t :: s.writers := by
    intro u hu
    obtain ⟨hut, hne⟩ := ne_running_setPhase hu
    obtain ⟨hr, hwr⟩ := h.blocked u hne
    exact ⟨hr, List.not_mem_cons_of_ne_of_not_mem hut hwr⟩
  have hne : t :: s.writers ≠ [] := List.cons_ne_nil t s.writers
  -- the lock is free, the thread has it already, or it goes to sleep
  by_cases hfree : s.readers = [] ∧ s.writers = []
  · rw [if_pos hfree]
    obtain ⟨hr, hw⟩ := hfree
    refine ⟨⟨h.shared, ?_, ?_, ?_, Or.inl hr, fun _ _ => hne, hblocked⟩, fun _ _ => Or.inr (Or.inl hne)⟩
    · show s.mutex.exclusiveLockCount + 1 = if t :: s.writers = [] then 0 else 1
      rw [h.exclusive, if_pos hw, if_neg hne]
      rfl
    · show (1 : Int) = ((t :: s.writers).length : Int)
      rw [hw]
      rfl
    · intro u
      show some t = some u ↔ u ∈ t :: s.writers
      rw [hw, List.mem_singleton, Option.some.injEq]
      exact eq_comm
  · rw [if_neg hfree]
    by_cases hmem : t ∈ s.writers
    · -- the thread writes already
      rw [if_pos hmem]
      have hw : s.writers ≠ [] := List.ne_nil_of_mem hmem
      refine ⟨⟨h.shared, ?_, ?_, ?_, Or.inl (h.apart.resolve_right hw), fun _ _ => hne, hblocked⟩,
        fun _ _ => Or.inr (Or.inl hne)⟩
      · show s.mutex.exclusiveLockCount = if t :: s.writers = [] then 0 else 1
        rw [h.exclusive, if_neg hw, if_neg hne]
      · show s.mutex.recursiveCount + 1 = ((t :: s.writers).length : Int)
        rw [h.recursive, List.length_cons]
        omega
      · intro u
        show s.mutex.recursiveOwner = some u ↔ u ∈ t :: s.writers
        rw [h.owner, List.mem_cons]
        exact ⟨Or.inr, fun hu => hu.elim (fun heq => heq ▸ hmem) id⟩
    -- somebody else holds the lock
    · rw [if_neg hmem]
      have hheld : s.readers ≠ [] ∨ s.writers ≠ [] := not_and_or.mp hfree
      exact ⟨⟨h.shared, h.exclusive, h.recursive, h.owner, h.apart,
        fun u hu => h.sleepingShared u (phase_of_ne_self hu nofun), fun u hu => h.blocked_setPhase ⟨ht, hmem⟩ hu⟩,
        fun _ _ => hheld.elim Or.inl fun hw => Or.inr (Or.inl hw)⟩

theorem Inv.attempt (h : Inv s) (ht : match cv with | .shared => t ∉ s.writers | .exclusive => t ∉ s.readers) :
    Inv (s.attempt t cv) := by
  cases cv with
  | shared => exact h.acquire_shared ht
  | exclusive => exact h.acquire_exclusive ht

/-- Setting the phase a thread has changes nothing. -/
theorem setPhase_self (h : s.phase t = p) : s.setPhase t p = s := by
  have hphase : (fun u => if u = t then p else s.phase u) = s.phase := by
    funext u
    by_cases hu : u = t
    · rw [if_pos hu, hu, h]
    · rw [if_neg hu]
  show { s with phase := fun u => if u = t then p else s.phase u } = s
  rw [hphase]

/-- `try_lock_shared` is a round of `lock_shared`, without the wait. -/
theorem Inv.tryShared (h : Inv s) (hrun : s.phase t = .running) (ht : t ∉ s.writers) :
    Inv (s.apply (.tryShared t)) := by
  by_cases hw : s.writers = []
  · have htry : s.mutex.tryLockShared = (true, { s.mutex with sharedLockCount := s.mutex.sharedLockCount + 1 }) :=
      if_pos (by rw [h.exclusive, if_pos hw])
    have happly : s.apply (.tryShared t) = s.attempt t .shared := by
      rw [h.attempt_shared, if_pos hw, setPhase_self hrun]
      show (if s.mutex.tryLockShared.1 = true then _ else _ : System T) = _
      rw [htry]
      rfl
    rw [happly]
    exact h.acquire_shared ht
  · have htry : s.mutex.tryLockShared = (false, s.mutex) :=
      if_neg (by rw [h.exclusive, if_neg hw]; omega)
    have happly : s.apply (.tryShared t) = s := by
      show (if s.mutex.tryLockShared.1 = true then _ else _ : System T) = _
      rw [htry]
      rfl
    rw [happly]
    exact h

end Acquiring

/-! ## Waking up and releasing -/

section Releasing

variable {T : Type} [DecidableEq T] {s : System T} {t : T} {cv : Cv} {picked : Option T}

/-- A thread that does not run is woken. -/
theorem Books.woken (h : Books s) (ht : s.phase t ≠ .running) : Books (s.setPhase t (.woken cv)) where
  shared := h.shared
  exclusive := h.exclusive
  recursive := h.recursive
  owner := h.owner
  apart := h.apart
  sleepingShared u hu := h.sleepingShared u (phase_of_ne_self hu nofun)
  blocked _ hu := h.blocked_setPhase (h.blocked t ht) hu

/-- A thread may wake up without being told. -/
theorem Inv.wake (h : Inv s) (ht : s.phase t = .sleeping cv) : Inv (s.setPhase t (.woken cv)) := by
  refine ⟨h.toBooks.woken (by rw [ht]; exact nofun), fun u hu => ?_⟩
  rcases h.sleepingExclusive u (phase_of_ne_self hu nofun) with hr | hw | ⟨v, hv⟩
  · exact Or.inl hr
  · exact Or.inr (Or.inl hw)
  · refine Or.inr (Or.inr ⟨v, ?_⟩)
    have hvt : v ≠ t := by
      rintro rfl
      rw [hv] at ht
      cases ht
    rw [phase_setPhase, if_neg hvt]
    exact hv

/-- Behind a notification no writer sleeps without another one that is woken. -/
theorem Books.notifyOne (h : Books s) (hpicked : s.Picks picked) : Inv (s.notifyOne picked) := by
  cases picked with
  | none => exact ⟨h, fun u hu => absurd hu (hpicked u)⟩
  | some v =>
    have hv : s.phase v = .sleeping .exclusive := hpicked
    exact ⟨h.woken (by rw [hv]; exact nofun), fun _ _ => Or.inr (Or.inr ⟨v, phase_setPhase_self⟩)⟩

omit [DecidableEq T] in
/-- `notify_all` wakes the readers that sleep, and changes nothing else. -/
theorem notifyAll_iff {u : T} (p : Phase) (hsleeping : p ≠ .sleeping .shared) (hwoken : p ≠ .woken .shared) :
    s.notifyAll.phase u = p ↔ s.phase u = p := by
  show (if s.phase u = .sleeping .shared then .woken .shared else s.phase u) = _ ↔ _
  by_cases hu : s.phase u = .sleeping .shared
  · rw [if_pos hu, hu]
    exact iff_of_false hwoken.symm hsleeping.symm
  · rw [if_neg hu]

theorem length_erase {l : List T} (ht : t ∈ l) : ((l.erase t).length : Int) = l.length - 1 := by
  have hlength := List.length_erase_of_mem ht
  have hpos := List.length_pos_of_mem ht
  omega

/-- The last reader that leaves wakes a writer. -/
theorem Inv.releaseShared (h : Inv s) (ht : t ∈ s.readers) (hpicked : s.Picks picked) :
    Inv (s.apply (.releaseShared t picked)) := by
  have hw : s.writers = [] := h.apart.resolve_left (List.ne_nil_of_mem ht)
  let released : System T := { s with mutex := s.mutex.unlockShared.1, readers := s.readers.erase t }
  have hbooks : Books released := by
    refine ⟨?_, h.exclusive, h.recursive, h.owner, Or.inr hw, h.sleepingShared, fun u hu => ?_⟩
    · show s.mutex.sharedLockCount - 1 = _
      rw [h.shared]
      exact (length_erase ht).symm
    · obtain ⟨hr, hwr⟩ := h.blocked u hu
      exact ⟨fun hmem => hr (List.mem_of_mem_erase hmem), hwr⟩
  show Inv (if decide (s.mutex.sharedLockCount - 1 = 0) = true then released.notifyOne picked else released)
  have hcount : s.mutex.sharedLockCount - 1 = ((s.readers.erase t).length : Int) := hbooks.shared
  by_cases hlast : s.mutex.sharedLockCount - 1 = 0
  · rw [if_pos (decide_eq_true hlast)]
    refine hbooks.notifyOne ?_
    cases picked <;> exact hpicked
  · rw [if_neg (by rw [decide_eq_true_eq]; exact hlast)]
    refine ⟨hbooks, fun _ _ => Or.inl fun hnil => hlast ?_⟩
    have hnil : s.readers.erase t = [] := hnil
    rw [hcount, hnil]
    rfl

/-- The last release of the writer wakes all readers and one writer. -/
theorem Inv.releaseExclusive (h : Inv s) (ht : t ∈ s.writers) (hpicked : s.Picks picked) :
    Inv (s.apply (.releaseExclusive t picked)) := by
  have hw : s.writers ≠ [] := List.ne_nil_of_mem ht
  have hr : s.readers = [] := h.apart.resolve_right hw
  have howner : s.mutex.recursiveOwner = some t := (h.owner t).mpr ht
  have hlength := length_erase ht
  have hblocked : ∀ u, s.phase u ≠ .running → u ∉ s.readers ∧ u ∉ s.writers.erase t := fun u hu =>
    ⟨(h.blocked u hu).1, fun hmem => (h.blocked u hu).2 (List.mem_of_mem_erase hmem)⟩
  by_cases hmore : s.mutex.recursiveCount > 1
  · -- the thread holds the lock once less
    have hne : s.writers.erase t ≠ [] := by
      -- the thread is the only writer, so as long as it is on the list the lock is its own
      intro hnil
      rw [hnil, List.length_nil] at hlength
      have hcount := h.recursive
      omega
    have hmem : ∀ u, u ∈ s.writers.erase t ↔ u = t := by
      have hall : ∀ u ∈ s.writers.erase t, u = t := fun u hu => h.writer_unique (List.mem_of_mem_erase hu) ht
      obtain ⟨u, hu⟩ := List.exists_mem_of_ne_nil _ hne
      refine fun v => ⟨hall v, fun hv => ?_⟩
      rw [show v = u from hv.trans (hall u hu).symm]
      exact hu
    have hunlock : s.mutex.unlock t = ({ s.mutex with recursiveCount := s.mutex.recursiveCount - 1 }, false) :=
      if_pos ⟨howner, hmore⟩
    have hnext : s.apply (.releaseExclusive t picked) =
        { s with mutex := { s.mutex with recursiveCount := s.mutex.recursiveCount - 1 }
                 writers := s.writers.erase t } := by
      show (if (s.mutex.unlock t).2 = true then _ else _ : System T) = _
      rw [hunlock]
      rfl
    rw [hnext]
    refine ⟨⟨h.shared, ?_, ?_, fun u => ?_, Or.inl hr, fun _ _ => hne, hblocked⟩, fun _ _ => Or.inr (Or.inl hne)⟩
    · show s.mutex.exclusiveLockCount = if s.writers.erase t = [] then 0 else 1
      rw [h.exclusive, if_neg hw, if_neg hne]
    · show s.mutex.recursiveCount - 1 = ((s.writers.erase t).length : Int)
      rw [h.recursive, hlength]
    · show s.mutex.recursiveOwner = some u ↔ u ∈ s.writers.erase t
      rw [howner, hmem, Option.some.injEq]
      exact eq_comm
  -- it was the last time: the lock is free, all sleeping readers are woken and one writer
  · have hnil : s.writers.erase t = [] := by
      have hcount := h.recursive
      exact List.length_eq_zero_iff.mp (by omega)
    let mutex : RecursiveSharedMutex T := { s.mutex with recursiveOwner := none, recursiveCount := 0, exclusiveLockCount := 0 }
    have hunlock : s.mutex.unlock t = (mutex, true) := by
      refine (if_neg fun hand => hmore hand.2).trans ?_
      rw [h.exclusive, if_neg hw]
      rfl
    let released : System T := { s with mutex := mutex, writers := s.writers.erase t }
    have hnext : s.apply (.releaseExclusive t picked) = released.notifyAll.notifyOne picked := by
      show (if (s.mutex.unlock t).2 = true then _ else _ : System T) = _
      rw [hunlock]
      rfl
    have hexclusive (u : T) : released.notifyAll.phase u = .sleeping .exclusive ↔ s.phase u = .sleeping .exclusive :=
      notifyAll_iff _ nofun nofun
    rw [hnext]
    refine Books.notifyOne ⟨h.shared, ?_, ?_, fun u => ?_, Or.inl hr, fun u hu => ?_, fun u hu => ?_⟩ ?_
    -- nobody holds the lock
    · show (0 : Int) = if s.writers.erase t = [] then 0 else 1
      rw [if_pos hnil]
    · show (0 : Int) = ((s.writers.erase t).length : Int)
      rw [hnil]
      rfl
    · show none = some u ↔ u ∈ s.writers.erase t
      rw [hnil]
      exact ⟨nofun, nofun⟩
    · -- all readers have been woken
      have hu : (if s.phase u = .sleeping .shared then .woken .shared else s.phase u) = Phase.sleeping .shared := hu
      by_cases hsleep : s.phase u = .sleeping .shared
      · rw [if_pos hsleep] at hu
        cases hu
      · rw [if_neg hsleep] at hu
        exact absurd hu hsleep
    · exact hblocked u fun hrun => hu ((notifyAll_iff .running nofun nofun).mpr hrun)
    -- the writer that is woken is one that sleeps, and if none is woken none does
    · cases picked with
      | none => exact fun u hu => hpicked u ((hexclusive u).mp hu)
      | some v => exact (hexclusive v).mpr hpicked

/-- **Step.**  Every step that is admitted keeps the invariant. -/
theorem Inv.step (h : Inv s) {a : Action T} (ha : s.Admitted a) : Inv (s.apply a) := by
  cases a with
  | acquire t cv =>
    refine h.attempt ?_
    cases cv <;> exact ha.2
  | resume t cv =>
    have hne : s.phase t ≠ .running := by
      rw [show s.phase t = .woken cv from ha]
      exact nofun
    refine h.attempt ?_
    cases cv with
    | shared => exact (h.blocked t hne).2
    | exclusive => exact (h.blocked t hne).1
  | tryShared t => exact h.tryShared ha.1 ha.2
  | releaseShared t picked => exact h.releaseShared ha.2.1 ha.2.2
  | releaseExclusive t picked => exact h.releaseExclusive ha.2.1 ha.2.2
  | wake t cv => exact h.wake ha

/-- **Run.** -/
theorem Reachable.inv (h : Reachable s) : Inv s := by
  induction h with
  | new => exact Inv.new
  | step a _ ha ih => exact ih.step ha

/-- **Exclusion.**  In every interleaving the lock is held by readers, or by one writer, as often as its counters say;
    and who holds it does not sleep. -/
theorem mutex_exclusive (h : Reachable s) :
    (s.readers = [] ∨ s.writers = []) ∧ (∀ t ∈ s.writers, ∀ u ∈ s.writers, t = u) ∧
      s.mutex.sharedLockCount = s.readers.length ∧ s.mutex.recursiveCount = s.writers.length ∧
      ∀ t, t ∈ s.readers ∨ t ∈ s.writers → s.phase t = .running := by
  have hinv := h.inv
  refine ⟨hinv.apart, fun t ht u hu => hinv.writer_unique ht hu, hinv.shared, hinv.recursive, ?_⟩
  rintro t (ht | ht)
  · exact hinv.running_of_reader ht
  · exact hinv.running_of_writer ht

end Releasing

/-! ## Nobody sleeps for ever -/

section Service

variable {T : Type} [DecidableEq T] {s s' : System T} {t : T} {cv : Cv}

/-- A round of a thread ends with the lock, or with a wait, and then somebody holds it. -/
theorem Inv.attempt_cases (h : Inv s) (t : T) (cv : Cv) :
    ((s.attempt t cv).phase = (s.setPhase t .running).phase ∧ Holds (s.attempt t cv) t ∧
      (s.attempt t cv).readers.length + (s.attempt t cv).writers.length = s.readers.length + s.writers.length + 1) ∨
    (s.attempt t cv = s.setPhase t (.sleeping cv) ∧ ∃ u, Holds s u) := by
  have hheld : ∀ {l : List T}, l ≠ [] → ∃ u, u ∈ l := fun hne => List.exists_mem_of_ne_nil _ hne
  cases cv with
  | shared =>
    rw [h.attempt_shared]
    by_cases hw : s.writers = []
    · rw [if_pos hw]
      refine Or.inl ⟨rfl, Or.inl List.mem_cons_self, ?_⟩
      show (t :: s.readers).length + s.writers.length = _
      rw [List.length_cons]
      omega
    · rw [if_neg hw]
      obtain ⟨u, hu⟩ := hheld hw
      exact Or.inr ⟨rfl, u, Or.inr hu⟩
  | exclusive =>
    have hlength : s.readers.length + (t :: s.writers).length = s.readers.length + s.writers.length + 1 := by
      rw [List.length_cons]
      omega
    rw [h.attempt_exclusive]
    by_cases hfree : s.readers = [] ∧ s.writers = []
    · rw [if_pos hfree]
      exact Or.inl ⟨rfl, Or.inr List.mem_cons_self, hlength⟩
    · rw [if_neg hfree]
      by_cases hmem : t ∈ s.writers
      · rw [if_pos hmem]
        exact Or.inl ⟨rfl, Or.inr List.mem_cons_self, hlength⟩
      · rw [if_neg hmem]
        rcases not_and_or.mp hfree with hr | hw
        · obtain ⟨u, hu⟩ := hheld hr
          exact Or.inr ⟨rfl, u, Or.inl hu⟩
        · obtain ⟨u, hu⟩ := hheld hw
          exact Or.inr ⟨rfl, u, Or.inr hu⟩

/-- **No wake-up is lost.**  Whenever a thread does not run, somebody who does holds the lock, or a thread has been
    woken that gets it as soon as it goes on. -/
theorem mutex_progress (h : Reachable s) (ht : s.phase t ≠ .running) :
    (∃ u, Holds s u ∧ s.phase u = .running) ∨
    ∃ u cv, s.phase u = .woken cv ∧ Holds (s.apply (.resume u cv)) u := by
  have hinv := h.inv
  rcases hinv.held_or_woken ht with ⟨u, hu⟩ | ⟨u, cv, hu⟩
  · exact Or.inl ⟨u, hu, hinv.running_of_holds hu⟩
  · rcases hinv.attempt_cases u cv with ⟨-, hholds, -⟩ | ⟨-, v, hv⟩
    · exact Or.inr ⟨u, cv, hu, hholds⟩
    · exact Or.inl ⟨v, hv, hinv.running_of_holds hv⟩

/-- A step without a new request: a woken thread goes on, or a lock is released. -/
inductive Drains (s : System T) : System T → Prop where
  | resume (t : T) (cv : Cv) : s.Admitted (.resume t cv) → Drains s (s.apply (.resume t cv))
  | releaseShared (t : T) (picked : Option T) : s.Admitted (.releaseShared t picked) →
      Drains s (s.apply (.releaseShared t picked))
  | releaseExclusive (t : T) (picked : Option T) : s.Admitted (.releaseExclusive t picked) →
      Drains s (s.apply (.releaseExclusive t picked))

theorem Drains.inv (hd : Drains s s') (h : Inv s) : Inv s' := by
  cases hd with
  | resume t cv ha => exact h.step ha
  | releaseShared t picked ha => exact h.step ha
  | releaseExclusive t picked ha => exact h.step ha

/-- Somebody can go on as long as the lock is held or somebody waits for it. -/
theorem Inv.drains (h : Inv s) (hstuck : ∀ s', ¬ Drains s s') :
    s.readers = [] ∧ s.writers = [] ∧ ∀ t, s.phase t = .running := by
  have hpick : ∃ picked, s.Picks picked := by
    by_cases hsleep : ∃ t, s.phase t = .sleeping .exclusive
    · obtain ⟨t, ht⟩ := hsleep
      exact ⟨some t, ht⟩
    · exact ⟨none, fun t ht => hsleep ⟨t, ht⟩⟩
  obtain ⟨picked, hpicked⟩ := hpick
  have hfree : ∀ t, ¬ Holds s t := by
    rintro t (ht | ht)
    · exact hstuck _ (.releaseShared t picked ⟨h.running_of_reader ht, ht, hpicked⟩)
    · exact hstuck _ (.releaseExclusive t picked ⟨h.running_of_writer ht, ht, hpicked⟩)
  refine ⟨List.eq_nil_iff_forall_not_mem.mpr fun t ht => hfree t (Or.inl ht),
    List.eq_nil_iff_forall_not_mem.mpr fun t ht => hfree t (Or.inr ht), fun t => ?_⟩
  by_contra hne
  rcases h.held_or_woken hne with ⟨u, hu⟩ | ⟨u, cv, hu⟩
  · exact hfree u hu
  · exact hstuck _ (.resume u cv hu)

/-! ### A measure -/

/-- The number of locks that are held. -/
def held (s : System T) : Nat := s.readers.length + s.writers.length

/-- Notifications do not make a thread run, nor do they stop one. -/
theorem running_notifyOne {picked : Option T} (hpicked : s.Picks picked) (u : T) :
    (s.notifyOne picked).phase u = .running ↔ s.phase u = .running := by
  cases picked with
  | none => exact Iff.rfl
  | some v =>
    have hv : s.phase v = .sleeping .exclusive := hpicked
    show (s.setPhase v (.woken .exclusive)).phase u = _ ↔ _
    rw [phase_setPhase]
    by_cases huv : u = v
    · rw [if_pos huv, huv, hv]
      exact ⟨nofun, nofun⟩
    · rw [if_neg huv]

theorem held_notifyOne (picked : Option T) : (s.notifyOne picked).held = s.held := by
  cases picked <;> rfl

/-- What a step that drains can do: release a lock, get one, or go to sleep again. -/
theorem Drains.cases (hd : Drains s s') (h : Inv s) :
    ((∀ u, s'.phase u = .running ↔ s.phase u = .running) ∧ s'.held + 1 = s.held) ∨
    ∃ t cv, s.phase t = .woken cv ∧
      ((s'.phase = (s.setPhase t .running).phase ∧ Holds s' t ∧ s'.held = s.held + 1) ∨
        s' = s.setPhase t (.sleeping cv)) := by
  cases hd with
  -- a thread goes on: it gets the lock or sleeps again
  | resume t cv ha =>
    refine Or.inr ⟨t, cv, ha, ?_⟩
    exact (h.attempt_cases t cv).imp id And.left
  -- a release takes one holder from the list; whom it wakes does not run yet
  | releaseShared t picked ha =>
    obtain ⟨-, ht, hpicked⟩ := ha
    have hlength := length_erase ht
    let released : System T := { s with mutex := s.mutex.unlockShared.1, readers := s.readers.erase t }
    have hheld : released.held + 1 = s.held := by
      show (s.readers.erase t).length + s.writers.length + 1 = s.readers.length + s.writers.length
      omega
    left
    show (∀ u, (if s.mutex.unlockShared.2 = true then released.notifyOne picked else released).phase u = _ ↔ _) ∧
      (if s.mutex.unlockShared.2 = true then released.notifyOne picked else released).held + 1 = _
    cases s.mutex.unlockShared.2 with
    | false => exact ⟨fun _ => Iff.rfl, hheld⟩
    | true =>
      have hpicks : released.Picks picked := by cases picked <;> exact hpicked
      exact ⟨running_notifyOne hpicks, (congrArg (· + 1) (held_notifyOne picked)).trans hheld⟩
  | releaseExclusive t picked ha =>
    obtain ⟨-, ht, hpicked⟩ := ha
    have hlength := length_erase ht
    let released : System T := { s with mutex := (s.mutex.unlock t).1, writers := s.writers.erase t }
    have hheld : released.held + 1 = s.held := by
      show s.readers.length + (s.writers.erase t).length + 1 = s.readers.length + s.writers.length
      omega
    left
    show (∀ u, (if (s.mutex.unlock t).2 = true then released.notifyAll.notifyOne picked else released).phase u = _ ↔ _) ∧
      (if (s.mutex.unlock t).2 = true then released.notifyAll.notifyOne picked else released).held + 1 = _
    cases (s.mutex.unlock t).2 with
    | false => exact ⟨fun _ => Iff.rfl, hheld⟩
    | true =>
      have hpicks : released.notifyAll.Picks picked := by
        cases picked with
        | none => exact fun u hu => hpicked u ((notifyAll_iff (.sleeping .exclusive) nofun nofun).mp hu)
        | some v => exact (notifyAll_iff (.sleeping .exclusive) nofun nofun).mpr hpicked
      refine ⟨fun u => (running_notifyOne hpicks u).trans (notifyAll_iff .running nofun nofun), ?_⟩
      exact (congrArg (· + 1) (held_notifyOne picked)).trans hheld

/-- The threads that do not run are among these. -/
def Within (F : Finset T) (s : System T) : Prop := ∀ t, s.phase t ≠ .running → t ∈ F

def isWoken : Phase → Bool
  | .woken _ => true
  | _ => false

def blockedCount (F : Finset T) (s : System T) : Nat := (F.filter fun t => s.phase t ≠ .running).card

def wokenCount (F : Finset T) (s : System T) : Nat := (F.filter fun t => isWoken (s.phase t) = true).card

/-- Each thread that gets the lock releases it later, and each one that is woken looks at it once. -/
def workLeft (F : Finset T) (s : System T) : Nat :=
  (2 * blockedCount F s + s.held) * (F.card + 1) + wokenCount F s

omit [DecidableEq T] in
theorem workLeft_lt {F : Finset T} (h : 2 * blockedCount F s' + s'.held < 2 * blockedCount F s + s.held) :
    workLeft F s' < workLeft F s := by
  have hwoken : wokenCount F s' ≤ F.card := Finset.card_filter_le _ _
  have hmul := Nat.mul_le_mul_right (F.card + 1) (Nat.succ_le_of_lt h)
  have hsucc := Nat.succ_mul (2 * blockedCount F s' + s'.held) (F.card + 1)
  unfold workLeft
  omega

/-- No new thread comes in while requests are served. -/
theorem Drains.within {F : Finset T} (hd : Drains s s') (h : Inv s) (hF : Within F s) : Within F s' := by
  intro u hu
  rcases hd.cases h with ⟨hrunning, -⟩ | ⟨t, cv, ht, ⟨hphase, -, -⟩ | rfl⟩
  · exact hF u fun hrun => hu ((hrunning u).mpr hrun)
  · rw [hphase] at hu
    exact hF u (ne_running_setPhase hu).2
  · by_cases hut : u = t
    · rw [hut]
      exact hF t (by rw [ht]; exact nofun)
    · rw [phase_setPhase, if_neg hut] at hu
      exact hF u hu

/-- **Step.**  Every step that drains leaves less work. -/
theorem Drains.workLeft {F : Finset T} (hd : Drains s s') (h : Inv s) (hF : Within F s) :
    workLeft F s' < workLeft F s := by
  rcases hd.cases h with ⟨hrunning, hheld⟩ | ⟨t, cv, ht, ⟨hphase, -, hheld⟩ | rfl⟩
  -- a release: those who do not run are the same, and there is a holder less
  · have hblocked : blockedCount F s' = blockedCount F s := by
      refine congrArg Finset.card (Finset.filter_congr fun u _ => ?_)
      exact not_congr (hrunning u)
    exact workLeft_lt (by omega)
  · -- one thread runs that did not
    have hlt : blockedCount F s' < blockedCount F s := by
      refine Finset.card_lt_card (Finset.ssubset_iff_subset_ne.mpr ⟨fun u hu => ?_, fun heq => ?_⟩)
      · obtain ⟨huF, hne⟩ := Finset.mem_filter.mp hu
        refine Finset.mem_filter.mpr ⟨huF, fun hrun => hne ?_⟩
        rw [hphase, phase_setPhase, hrun]
        exact ite_self _
      · have hmem : t ∈ F.filter fun t => s.phase t ≠ .running :=
          Finset.mem_filter.mpr ⟨hF t (by rw [ht]; exact nofun), by rw [ht]; exact nofun⟩
        rw [← heq] at hmem
        refine (Finset.mem_filter.mp hmem).2 ?_
        rw [hphase]
        exact phase_setPhase_self
    exact workLeft_lt (by omega)
  · -- it goes to sleep again
    have hblocked : blockedCount F (s.setPhase t (.sleeping cv)) = blockedCount F s := by
      refine congrArg Finset.card (Finset.filter_congr fun u _ => ?_)
      rw [phase_setPhase]
      by_cases hut : u = t
      · rw [if_pos hut, hut, ht]
        exact iff_of_true nofun nofun
      · rw [if_neg hut]
    -- who sleeps again is not woken any more
    have hlt : wokenCount F (s.setPhase t (.sleeping cv)) < wokenCount F s := by
      refine Finset.card_lt_card (Finset.ssubset_iff_subset_ne.mpr ⟨fun u hu => ?_, fun heq => ?_⟩)
      · obtain ⟨huF, hwoken⟩ := Finset.mem_filter.mp hu
        rw [phase_setPhase] at hwoken
        by_cases hut : u = t
        · rw [if_pos hut] at hwoken
          cases hwoken
        · rw [if_neg hut] at hwoken
          exact Finset.mem_filter.mpr ⟨huF, hwoken⟩
      · have hmem : t ∈ F.filter fun t => isWoken (s.phase t) = true :=
          Finset.mem_filter.mpr ⟨hF t (by rw [ht]; exact nofun), by rw [ht]; rfl⟩
        rw [← heq] at hmem
        have hwoken := (Finset.mem_filter.mp hmem).2
        rw [phase_setPhase_self] at hwoken
        cases hwoken
    have hheld : (s.setPhase t (.sleeping cv)).held = s.held := rfl
    unfold System.workLeft
    rw [hblocked, hheld]
    omega

/-- A change of phase concerns one thread. -/
theorem Within.setPhase {F : Finset T} (hF : Within F s) {s' : System T} {t : T} {p : Phase}
    (h : s'.phase = (s.setPhase t p).phase) : Within (insert t F) s' := by
  intro u hu
  rw [h, phase_setPhase] at hu
  by_cases hut : u = t
  · rw [hut]
    exact Finset.mem_insert_self t F
  · rw [if_neg hut] at hu
    exact Finset.mem_insert_of_mem (hF u hu)

theorem Within.attempt {F : Finset T} (hF : Within F s) (h : Inv s) (t : T) (cv : Cv) :
    Within (insert t F) (s.attempt t cv) := by
  rcases h.attempt_cases t cv with ⟨hphase, -, -⟩ | ⟨heq, -⟩
  · exact hF.setPhase hphase
  · exact hF.setPhase (congrArg System.phase heq)

/-- There are never more than finitely many threads that do not run. -/
theorem Reachable.within (h : Reachable s) : ∃ F : Finset T, Within F s := by
  induction h with
  | new => exact ⟨∅, fun t ht => absurd rfl ht⟩
  | @step s a hs ha ih =>
    obtain ⟨F, hF⟩ := ih
    cases a with
    | acquire t cv => exact ⟨insert t F, hF.attempt hs.inv t cv⟩
    | resume t cv => exact ⟨insert t F, hF.attempt hs.inv t cv⟩
    | tryShared t =>
      refine ⟨F, fun u hu => hF u fun hrun => hu ?_⟩
      show (if s.mutex.tryLockShared.1 = true then _ else s : System T).phase u = _
      cases s.mutex.tryLockShared.1 <;> exact hrun
    | releaseShared t picked => exact ⟨F, (Drains.releaseShared t picked ha).within hs.inv hF⟩
    | releaseExclusive t picked => exact ⟨F, (Drains.releaseExclusive t picked ha).within hs.inv hF⟩
    | wake t cv => exact ⟨insert t F, hF.setPhase rfl⟩

/-- The state, and those that steps without new requests lead to. -/
theorem Inv.drained (h : Inv s) {F : Finset T} (hF : Within F s) (hrun : Relation.ReflTransGen Drains s s') :
    Inv s' ∧ Within F s' := by
  induction hrun with
  | refl => exact ⟨h, hF⟩
  | tail _ hd ih => exact ⟨hd.inv ih.1, hd.within ih.1 ih.2⟩

/-- The work that is left goes down with every step, so the steps end. -/
theorem Inv.acc {F : Finset T} (n : Nat) (h : Inv s) (hF : Within F s) (hn : System.workLeft F s < n) :
    Acc (fun s' s => Drains s s') s := by
  induction n generalizing s with
  | zero => cases hn
  | succ n ih =>
    refine Acc.intro s fun s' hd => ih (hd.inv h) (hd.within h hF) ?_
    have hlt := hd.workLeft h hF
    omega

/-- **Everybody is served.**  If nobody new comes, then in whatever order woken threads go on and locks are released,
    that ends; and it can only end where the lock is free and every thread runs, each having got the lock before. -/
theorem mutex_serves (h : Reachable s) :
    Acc (fun s' s => Drains s s') s ∧
    (∀ s', Relation.ReflTransGen Drains s s' → (∀ s'', ¬ Drains s' s'') →
      s'.readers = [] ∧ s'.writers = [] ∧ ∀ t, s'.phase t = .running) ∧
    ∀ s₁ s₂, Relation.ReflTransGen Drains s s₁ → Drains s₁ s₂ →
      ∀ t, s₁.phase t ≠ .running → s₂.phase t = .running → Holds s₂ t := by
  obtain ⟨F, hF⟩ := h.within
  refine ⟨h.inv.acc _ hF (Nat.lt_succ_self _), fun s' hrun hstuck => ?_, fun s₁ s₂ hrun hd t ht₁ ht₂ => ?_⟩
  · exact (h.inv.drained hF hrun).1.drains hstuck
  · rcases hd.cases (h.inv.drained hF hrun).1 with ⟨hrunning, -⟩ | ⟨u, cv, -, ⟨hphase, hholds, -⟩ | rfl⟩
    · exact absurd ((hrunning t).mp ht₂) ht₁
    · rw [hphase, phase_setPhase] at ht₂
      by_cases htu : t = u
      · rw [htu]
        exact hholds
      · rw [if_neg htu] at ht₂
        exact absurd ht₂ ht₁
    · rw [phase_setPhase] at ht₂
      by_cases htu : t = u
      · rw [if_pos htu] at ht₂
        cases ht₂
      · rw [if_neg htu] at ht₂
        exact absurd ht₂ ht₁

end Service

/-! ## A reader and a writer -/

/-- Thread 0 reads, and thread 1 waits to write. -/
def writerWaits : System Nat := ((System.new : System Nat).apply (.acquire 0 .shared)).apply (.acquire 1 .exclusive)

theorem reachable_writerWaits : Reachable writerWaits :=
  .step _ (.step _ .new ⟨rfl, List.not_mem_nil⟩) ⟨rfl, by decide⟩

theorem mutex_exclusive_reader :
    (writerWaits.readers = [] ∨ writerWaits.writers = []) ∧
      (∀ t ∈ writerWaits.writers, ∀ u ∈ writerWaits.writers, t = u) ∧
      writerWaits.mutex.sharedLockCount = writerWaits.readers.length ∧
      writerWaits.mutex.recursiveCount = writerWaits.writers.length ∧
      ∀ t, t ∈ writerWaits.readers ∨ t ∈ writerWaits.writers → writerWaits.phase t = .running :=
  mutex_exclusive reachable_writerWaits

theorem mutex_progress_writer :
    (∃ u, Holds writerWaits u ∧ writerWaits.phase u = .running) ∨
      ∃ u cv, writerWaits.phase u = .woken cv ∧ Holds (writerWaits.apply (.resume u cv)) u :=
  @mutex_progress Nat _ writerWaits 1 reachable_writerWaits nofun

theorem mutex_serves_writer :
    Acc (fun s' s => Drains s s') writerWaits ∧
    (∀ s', Relation.ReflTransGen Drains writerWaits s' → (∀ s'', ¬ Drains s' s'') →
      s'.readers = [] ∧ s'.writers = [] ∧ ∀ t, s'.phase t = .running) ∧
    ∀ s₁ s₂, Relation.ReflTransGen Drains writerWaits s₁ → Drains s₁ s₂ →
      ∀ t, s₁.phase t ≠ .running → s₂.phase t = .running → Holds s₂ t :=
  mutex_serves reachable_writerWaits

end System

end Miniob.Lang
