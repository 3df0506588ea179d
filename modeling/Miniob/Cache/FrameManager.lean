/-
  The frames in memory (`BPFrameManager` in src/observer/storage/buffer/disk_buffer_pool.cpp, `Frame`, and
  `MemPoolSimple` in deps/common/mm/mem_pool.h).

  * Frames lie at addresses for good.  What the manager has for a page is the address of a frame, and one
    that it frees goes to the end of the free list as it is: `reset` and `reinit` do nothing.
  * `frames_` is kept in the order of use.
  * `Tidy`: every frame is free and nobody has pinned it, or it is there under its own id.

  Left out: latches and the time of the last access.
-/
import Mathlib.Data.List.Nodup
import Mathlib.Logic.Function.Basic
import Miniob.Common.Run
import Miniob.Storage.Types

namespace Miniob.Cache

open Miniob.Common Miniob.Storage

/-! ## Frames -/

structure FrameId where
  bufferPoolId : Int
  pageNum : PageNum
  deriving DecidableEq

structure Frame (D : Type) where
  frameId : FrameId
  page : D
  dirty : Bool
  pinCount : Nat

inductive FrameFault where
  /-- An `ASSERT` fails. -/
  | assertion
  /-- `allocate_frame` tries for ever. -/
  | noVictim
  deriving DecidableEq

/-- `BPFrameManager`: the LRU cache of the frames in use, and the free ones. -/
structure BPFrameManager (D : Type) where
  /-- The frame at an address. -/
  frame : Nat → Frame D
  /-- `frames_`, the one used last in front. -/
  frames : List (FrameId × Nat)
  /-- `allocator_.frees`. -/
  frees : List Nat

namespace BPFrameManager

variable {D : Type} (m : BPFrameManager D)

def setFrame (a : Nat) (f : Frame D) : BPFrameManager D := { m with frame := Function.update m.frame a f }

/-- `Frame::pin`. -/
def pin (a : Nat) : BPFrameManager D :=
  m.setFrame a { m.frame a with pinCount := (m.frame a).pinCount + 1 }

/-- `Frame::unpin`. -/
def unpin (a : Nat) : Except FrameFault (BPFrameManager D) :=
  if (m.frame a).pinCount > 0 then
    .ok (m.setFrame a { m.frame a with pinCount := (m.frame a).pinCount - 1 })
  else .error .assertion

/-- The frame of a page. -/
def find (id : FrameId) : Option Nat := (m.frames.find? fun e => e.1 = id).map Prod.snd

/-- `lru_touch`. -/
def touch (id : FrameId) (a : Nat) : BPFrameManager D :=
  { m with frames := (id, a) :: m.frames.filter fun e => e.1 ≠ id }

/-- `get_internal`. -/
def get (id : FrameId) : Option (Nat × BPFrameManager D) :=
  match m.find id with
  | none => none
  | some a => some (a, (m.touch id a).pin a)

/-- The page is put into a frame from the free list. -/
def place (id : FrameId) (a : Nat) (frees : List Nat) : BPFrameManager D where
  frame := Function.update m.frame a { m.frame a with frameId := id, pinCount := 1 }
  frames := (id, a) :: m.frames
  frees := frees

/-- `alloc`: a free frame is placed under the identifier. -/
def alloc (id : FrameId) : Except FrameFault (Option Nat × BPFrameManager D) :=
  match m.get id with
  | some (a, m) => .ok (some a, m)
  | none =>
    match m.frees with
    | [] => .ok (none, m)
    | a :: frees =>
      if (m.frame a).pinCount = 0 then .ok (some a, m.place id a frees) else .error .assertion

/-- The frame of a page goes to the free list. -/
def release (id : FrameId) (a : Nat) : BPFrameManager D where
  frame := Function.update m.frame a
    { m.frame a with frameId := { (m.frame a).frameId with pageNum := -1 }, pinCount := 0 }
  frames := m.frames.filter fun e => e.1 ≠ id
  frees := m.frees ++ [a]

def freeInternal (id : FrameId) (a : Nat) : Except FrameFault (BPFrameManager D) :=
  if m.find id = some a ∧ (m.frame a).pinCount = 1 then .ok (m.release id a) else .error .assertion

/-- The frame that `purge_frames` finds. -/
def victim : Option (FrameId × Nat) := m.frames.reverse.find? fun e => (m.frame e.2).pinCount = 0

/-- The frames of a buffer pool. -/
def ofPool (bufferPoolId : Int) : List Nat :=
  (m.frames.filter fun e => e.1.bufferPoolId = bufferPoolId).map Prod.snd

/-- `find_list`: the frames are pinned. -/
def findList (bufferPoolId : Int) : List Nat × BPFrameManager D :=
  (m.ofPool bufferPoolId, (m.ofPool bufferPoolId).foldl pin m)

/-! ## The invariant -/

/-- There are `n` frames.  Each is free, or it is there under its own id and no other. -/
structure Tidy (n : Nat) : Prop where
  /-- A page is in one frame. -/
  keys : (m.frames.map Prod.fst).Nodup
  /-- A frame knows the page it has. -/
  own : ∀ id a, (id, a) ∈ m.frames → (m.frame a).frameId = id
  frees : m.frees.Nodup
  /-- A free frame is not pinned and has no page. -/
  free : ∀ a ∈ m.frees, (m.frame a).pinCount = 0 ∧ ∀ id, (id, a) ∉ m.frames
  /-- No frame is lost. -/
  all : ∀ a, a < n ↔ a ∈ m.frees ∨ ∃ id, (id, a) ∈ m.frames

variable {m} {n : Nat} {id id' : FrameId} {a b : Nat}

@[simp] theorem frame_setFrame (f : Frame D) : (m.setFrame a f).frame a = f := Function.update_self ..

theorem frame_setFrame_of_ne (f : Frame D) (h : b ≠ a) : (m.setFrame a f).frame b = m.frame b :=
  Function.update_of_ne h ..

/-- Only the frame itself is pinned. -/
theorem frame_pin (m : BPFrameManager D) (a b : Nat) :
    (m.pin a).frame b = { m.frame b with
      pinCount := (m.frame b).pinCount + if a = b then 1 else 0 } := by
  by_cases h : a = b
  · subst h
    rw [if_pos rfl]
    exact frame_setFrame _
  · rw [if_neg h]
    exact frame_setFrame_of_ne _ (Ne.symm h)

/-- The cache finds what it has; there is one frame for each identifier. -/
theorem find_eq_some (h : m.Tidy n) : m.find id = some a ↔ (id, a) ∈ m.frames := by
  unfold find
  constructor
  · intro hf
    obtain ⟨e, he, rfl⟩ := Option.map_eq_some_iff.mp hf
    have hkey := List.find?_some he
    obtain rfl : e.1 = id := of_decide_eq_true hkey
    exact List.mem_of_find?_eq_some he
  · intro hmem
    cases hf : m.frames.find? fun e => decide (e.1 = id) with
    | none => exact absurd rfl (of_decide_eq_false (Bool.eq_false_iff.mpr (List.find?_eq_none.mp hf _ hmem)))
    | some e =>
      have hsome := List.find?_some hf
      have hkey : e.1 = id := of_decide_eq_true hsome
      have heq : e = (id, a) := List.inj_on_of_nodup_map h.keys (List.mem_of_find?_eq_some hf) hmem hkey
      rw [heq]
      rfl

/-- And nothing else. -/
theorem find_eq_none : m.find id = none ↔ ∀ a, (id, a) ∉ m.frames := by
  unfold find
  rw [Option.map_eq_none_iff, List.find?_eq_none]
  constructor
  · intro h a hmem
    exact h _ hmem (decide_eq_true rfl)
  · intro h e he hkey
    obtain rfl : e.1 = id := of_decide_eq_true hkey
    exact h e.2 he

/-- A frame is there under one id. -/
theorem Tidy.id_unique (h : m.Tidy n) (hid : (id, a) ∈ m.frames) (hid' : (id', a) ∈ m.frames) : id = id' :=
  (h.own id a hid).symm.trans (h.own id' a hid')

/-- A page is in one frame. -/
theorem Tidy.frame_unique (h : m.Tidy n) (ha : (id, a) ∈ m.frames) (hb : (id, b) ∈ m.frames) : a = b :=
  Option.some.inj (((find_eq_some h).mpr ha).symm.trans ((find_eq_some h).mpr hb))

theorem Tidy.not_free (h : m.Tidy n) (hid : (id, a) ∈ m.frames) : a ∉ m.frees :=
  fun hfree => (h.free a hfree).2 id hid

/-- A frame can change, but not whose it is. -/
theorem Tidy.setFrame (h : m.Tidy n) {f : Frame D} (hid : f.frameId = (m.frame a).frameId)
    (hfree : a ∈ m.frees → f.pinCount = 0) : (m.setFrame a f).Tidy n where
  keys := h.keys
  own := by
    intro id b hb
    by_cases hba : b = a
    · rw [hba] at hb ⊢
      rw [frame_setFrame, hid]
      exact h.own id a hb
    · rw [frame_setFrame_of_ne f hba]
      exact h.own id b hb
  frees := h.frees
  free := by
    intro b hb
    refine ⟨?_, (h.free b hb).2⟩
    by_cases hba : b = a
    · rw [hba] at hb ⊢
      rw [frame_setFrame]
      exact hfree hb
    · rw [frame_setFrame_of_ne f hba]
      exact (h.free b hb).1
  all := h.all

/-- A frame that is used goes to the front, and none is lost. -/
theorem mem_touch (h : m.Tidy n) (hid : (id, a) ∈ m.frames) (e : FrameId × Nat) :
    e ∈ (m.touch id a).frames ↔ e ∈ m.frames := by
  show e ∈ (id, a) :: m.frames.filter _ ↔ _
  rw [List.mem_cons, List.mem_filter, decide_eq_true_eq]
  constructor
  · rintro (rfl | ⟨he, -⟩)
    · exact hid
    · exact he
  · intro he
    by_cases hkey : e.1 = id
    · exact Or.inl (List.inj_on_of_nodup_map h.keys he hid hkey)
    · exact Or.inr ⟨he, hkey⟩

theorem keys_cons_filter (h : (m.frames.map Prod.fst).Nodup) (id : FrameId) (a : Nat) :
    (((id, a) :: m.frames.filter fun e => e.1 ≠ id).map Prod.fst).Nodup := by
  rw [List.map_cons, List.nodup_cons]
  refine ⟨fun hmem => ?_, List.Nodup.sublist (List.filter_sublist.map _) h⟩
  obtain ⟨e, he, hkey⟩ := List.mem_map.mp hmem
  exact of_decide_eq_true (List.mem_filter.mp he).2 hkey

/-- So the cache stays tidy. -/
theorem Tidy.touch (h : m.Tidy n) (hid : (id, a) ∈ m.frames) : (m.touch id a).Tidy n where
  keys := keys_cons_filter h.keys id a
  own := fun id' b hb => h.own id' b ((mem_touch h hid _).mp hb)
  frees := h.frees
  free := fun b hb => ⟨(h.free b hb).1, fun id' hb' => (h.free b hb).2 id' ((mem_touch h hid _).mp hb')⟩
  all := by
    intro b
    rw [h.all b]
    simp only [mem_touch h hid]
    rfl

theorem Tidy.pin (h : m.Tidy n) (hid : (id, a) ∈ m.frames) : (m.pin a).Tidy n :=
  h.setFrame rfl fun hfree => absurd hfree (h.not_free hid)

/-- A lookup that finds the page pins its frame. -/
theorem get_of_mem (h : m.Tidy n) (hid : (id, a) ∈ m.frames) :
    m.get id = some (a, (m.touch id a).pin a) ∧ ((m.touch id a).pin a).Tidy n := by
  refine ⟨?_, (h.touch hid).pin ((mem_touch h hid _).mpr hid)⟩
  unfold get
  rw [(find_eq_some h).mpr hid]

theorem get_eq_none : m.get id = none ↔ ∀ a, (id, a) ∉ m.frames := by
  rw [← find_eq_none]
  unfold get
  cases m.find id with
  | none => exact ⟨fun _ => rfl, fun _ => rfl⟩
  | some a => exact ⟨fun h => (Option.some_ne_none _ h).elim, fun h => (Option.some_ne_none _ h).elim⟩

/-- A free frame gets an identifier that no other frame has. -/
theorem Tidy.place (h : m.Tidy n) {frees : List Nat} (hfrees : m.frees = a :: frees)
    (hid : ∀ b, (id, b) ∉ m.frames) : (m.place id a frees).Tidy n := by
  have hnodup := h.frees
  rw [hfrees, List.nodup_cons] at hnodup
  -- the frame had no page, so no entry is for it
  obtain ⟨-, hnot⟩ := h.free a (by rw [hfrees]; exact List.mem_cons_self)
  have hframe : ∀ b, b ≠ a → (m.place id a frees).frame b = m.frame b := fun b hb =>
    Function.update_of_ne hb ..
  exact {
    keys := by
      show (((id, a) :: m.frames).map Prod.fst).Nodup
      rw [List.map_cons, List.nodup_cons]
      refine ⟨fun hmem => ?_, h.keys⟩
      obtain ⟨e, he, hkey⟩ := List.mem_map.mp hmem
      exact hid e.2 (by rw [← (show e.1 = id from hkey)]; exact he)
    own := by
      intro id' b hb
      rcases List.mem_cons.mp hb with heq | hmem
      · obtain ⟨rfl, rfl⟩ := Prod.mk.inj heq
        show (Function.update m.frame b _ b).frameId = _
        rw [Function.update_self]
      · have hba : b ≠ a := by
          rintro rfl
          exact hnot id' hmem
        rw [hframe b hba]
        exact h.own id' b hmem
    frees := hnodup.2
    free := by
      intro b hb
      have hba : b ≠ a := by
        rintro rfl
        exact hnodup.1 hb
      obtain ⟨hpin, hnotb⟩ := h.free b (by rw [hfrees]; exact List.mem_cons_of_mem a hb)
      rw [hframe b hba]
      refine ⟨hpin, fun id' hmem => ?_⟩
      rcases List.mem_cons.mp hmem with heq | hmem
      · exact hba (Prod.mk.inj heq).2
      · exact hnotb id' hmem
    all := by
      intro b
      rw [h.all b, hfrees]
      show b ∈ a :: frees ∨ _ ↔ b ∈ frees ∨ ∃ id', (id', b) ∈ (id, a) :: m.frames
      simp only [List.mem_cons, Prod.mk.injEq]
      constructor
      · rintro ((rfl | hb) | ⟨id', hb⟩)
        · exact Or.inr ⟨id, Or.inl ⟨rfl, rfl⟩⟩
        · exact Or.inl hb
        · exact Or.inr ⟨id', Or.inr hb⟩
      · rintro (hb | ⟨id', ⟨-, rfl⟩ | hb⟩)
        · exact Or.inl (Or.inr hb)
        · exact Or.inl (Or.inl rfl)
        · exact Or.inr ⟨id', hb⟩ }

/-- An allocation finds the frame of the page, takes a free frame, or finds that there is none. -/
theorem alloc_spec (h : m.Tidy n) (id : FrameId) :
    (∃ a, (id, a) ∈ m.frames ∧ m.alloc id = .ok (some a, (m.touch id a).pin a)) ∨
    (∃ a frees, (∀ b, (id, b) ∉ m.frames) ∧ m.frees = a :: frees ∧
      m.alloc id = .ok (some a, m.place id a frees)) ∨
    ((∀ b, (id, b) ∉ m.frames) ∧ m.frees = [] ∧ m.alloc id = .ok (none, m)) := by
  unfold alloc
  cases hfind : m.find id with
  | some a =>
    have hid := (find_eq_some h).mp hfind
    rw [(get_of_mem h hid).1]
    exact Or.inl ⟨a, hid, rfl⟩
  | none =>
    have hid := find_eq_none.mp hfind
    rw [get_eq_none.mpr hid]
    refine Or.inr ?_
    cases hfrees : m.frees with
    | nil => exact Or.inr ⟨hid, rfl, rfl⟩
    | cons a frees =>
      have hpin : (m.frame a).pinCount = 0 := (h.free a (by rw [hfrees]; exact List.mem_cons_self)).1
      exact Or.inl ⟨a, frees, hid, rfl, if_pos hpin⟩

/-- Only the released frame leaves the cache. -/
theorem mem_release (h : m.Tidy n) (hid : (id, a) ∈ m.frames) (id' : FrameId) (b : Nat) :
    (id', b) ∈ (m.release id a).frames ↔ (id', b) ∈ m.frames ∧ b ≠ a := by
  show (id', b) ∈ m.frames.filter _ ↔ _
  rw [List.mem_filter, decide_eq_true_eq]
  refine and_congr_right fun hb => not_congr ⟨fun hkey => ?_, fun hba => ?_⟩
  · obtain rfl : id' = id := hkey
    exact h.frame_unique hb hid
  · subst hba
    exact h.id_unique hb hid

/-- It is free, and unpinned. -/
theorem Tidy.release (h : m.Tidy n) (hid : (id, a) ∈ m.frames) : (m.release id a).Tidy n := by
  have hframe : ∀ b, b ≠ a → (m.release id a).frame b = m.frame b := fun b hb =>
    Function.update_of_ne hb ..
  -- the entry is gone, and the frame is at the end of the free list
  exact {
    keys := List.Nodup.sublist (List.filter_sublist.map _) h.keys
    own := by
      intro id' b hb
      obtain ⟨hb, hba⟩ := (mem_release h hid id' b).mp hb
      rw [hframe b hba]
      exact h.own id' b hb
    frees := List.Nodup.append h.frees (List.nodup_singleton a)
      (List.disjoint_singleton.mpr (h.not_free hid))
    free := by
      intro b hb
      rcases List.mem_append.mp hb with hfree | hlast
      · have hba : b ≠ a := by
          rintro rfl
          exact h.not_free hid hfree
        rw [hframe b hba]
        exact ⟨(h.free b hfree).1,
          fun id' hb' => (h.free b hfree).2 id' ((mem_release h hid id' b).mp hb').1⟩
      · obtain rfl := List.mem_singleton.mp hlast
        refine ⟨?_, fun id' hb' => ((mem_release h hid id' b).mp hb').2 rfl⟩
        show (Function.update m.frame b _ b).pinCount = 0
        rw [Function.update_self]
    all := by
      intro b
      rw [h.all b]
      simp only [mem_release h hid]
      show _ ↔ b ∈ m.frees ++ [a] ∨ _
      rw [List.mem_append, List.mem_singleton]
      by_cases hba : b = a
      · subst hba
        exact ⟨fun _ => Or.inl (Or.inr rfl), fun _ => Or.inr ⟨id, hid⟩⟩
      · constructor
        · rintro (hb | ⟨id', hb⟩)
          · exact Or.inl (Or.inl hb)
          · exact Or.inr ⟨id', hb, hba⟩
        · rintro ((hb | hb) | ⟨id', hb, -⟩)
          · exact Or.inl hb
          · exact absurd hb hba
          · exact Or.inr ⟨id', hb⟩ }

theorem freeInternal_ok (h : m.Tidy n) (hid : (id, a) ∈ m.frames) (hpin : (m.frame a).pinCount = 1) :
    m.freeInternal id a = .ok (m.release id a) :=
  if_pos ⟨(find_eq_some h).mpr hid, hpin⟩

/-- A frame that is pinned for its release is released as it is. -/
theorem release_pin (m : BPFrameManager D) (id : FrameId) (a : Nat) :
    (m.pin a).release id a = m.release id a := by
  have hself : (m.pin a).frame a = { m.frame a with pinCount := (m.frame a).pinCount + 1 } :=
    Function.update_self ..
  unfold release
  rw [hself]
  show BPFrameManager.mk (Function.update (Function.update m.frame a _) a _) _ _ = _
  rw [Function.update_idem]
  rfl

theorem victim_spec (h : m.victim = some (id, a)) : (id, a) ∈ m.frames ∧ (m.frame a).pinCount = 0 := by
  have hsome := List.find?_some h
  exact ⟨List.mem_reverse.mp (List.mem_of_find?_eq_some h), of_decide_eq_true hsome⟩

end BPFrameManager

end Miniob.Cache
