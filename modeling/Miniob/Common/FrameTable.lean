/-
  Pages of which some are in frames, for any keys and pages.

  A frame holds a copy of its page, which may be written to.  An eviction writes a frame back if it is
  dirty and drops it; a frame that is pinned stays.  What is seen of a page is its frame, and the disk
  where it has none.

  * `Synced`: a frame that is not dirty is as the disk.  Then an eviction is not seen (`seen_evict`).
  * `Held`: what is pinned is in a frame.
  * `Keeps`: something that no write changes is the same in all places, whatever is evicted.
  * Two tables may have their pages in different places and look the same (`Alike`).  Every operation
    keeps this and answers alike, and so does an eviction from a synced one.
-/
import Mathlib.Logic.Function.Basic

namespace Miniob.Common

structure FrameTable.Frame (V : Type) where
  page : V
  dirty : Bool

structure FrameTable (K V : Type) where
  disk : K → Option V
  frames : K → Option (FrameTable.Frame V)
  /-- One for each pin. -/
  pins : List K

namespace FrameTable

variable {K V : Type}

/-! ## Operations -/

def seen (t : FrameTable K V) (k : K) : Option V :=
  match t.frames k with
  | some f => some f.page
  | none => t.disk k

def dirty (t : FrameTable K V) (k : K) : Bool := (t.frames k).any (·.dirty)

theorem seen_of_frame {t : FrameTable K V} {k : K} {f : Frame V} (h : t.frames k = some f) :
    t.seen k = some f.page := by
  unfold seen
  rw [h]

/-- Of every page the disk and the frame agree on what `g` reads off them, and it is what `x` says. -/
structure Keeps {X : Type} (g : K → V → X) (x : K → Option X) (t : FrameTable K V) : Prop where
  disk : ∀ k, (t.disk k).map (g k) = x k
  frame : ∀ k f, t.frames k = some f → x k = some (g k f.page)

theorem Keeps.seen {X : Type} {g : K → V → X} {x : K → Option X} {t : FrameTable K V} (h : t.Keeps g x)
    (k : K) : (t.seen k).map (g k) = x k := by
  unfold FrameTable.seen
  cases hf : t.frames k with
  | some f => exact (h.frame k f hf).symm
  | none => exact h.disk k

variable [DecidableEq K]

/-- Drop a frame nobody has pinned, and write it back if it is dirty. -/
def evict (t : FrameTable K V) (k : K) : FrameTable K V :=
  if k ∈ t.pins then t
  else
    match t.frames k with
    | none => t
    | some f =>
      { t with
        disk := if f.dirty then Function.update t.disk k (some f.page) else t.disk
        frames := Function.update t.frames k none }

/-- Pin a page, which is read from disk if it has no frame. -/
def get (t : FrameTable K V) (k : K) : Option (V × FrameTable K V) :=
  match t.frames k with
  | some f => some (f.page, { t with pins := k :: t.pins })
  | none =>
    match t.disk k with
    | none => none
    | some v =>
      some (v, { t with
        frames := Function.update t.frames k (some ⟨v, false⟩)
        pins := k :: t.pins })

def unpin (t : FrameTable K V) (k : K) : FrameTable K V := { t with pins := t.pins.erase k }

/-- Write to a frame, and mark it dirty or leave its mark as it is. -/
def write (t : FrameTable K V) (k : K) (v : V) (mark : Bool) : FrameTable K V :=
  match t.frames k with
  | none => t
  | some f => { t with frames := Function.update t.frames k (some ⟨v, f.dirty || mark⟩) }

/-! ## Frames and the disk -/

def Synced (t : FrameTable K V) : Prop :=
  ∀ k f, t.frames k = some f → f.dirty = false → t.disk k = some f.page

def Held (t : FrameTable K V) : Prop := ∀ k ∈ t.pins, (t.frames k).isSome

variable {t t' : FrameTable K V} {j k : K} {v : V} {mark : Bool}

/-- The frame of a page is as the disk unless it is dirty. -/
def SyncedAt (t : FrameTable K V) (k : K) : Prop :=
  ∀ f, t.frames k = some f → f.dirty = false → t.disk k = some f.page

/-- A frame that an eviction drops is not missed. -/
theorem seen_evict_of_syncedAt (h : k ∈ t.pins ∨ t.SyncedAt k) : (t.evict k).seen = t.seen := by
  unfold evict
  split
  · rfl
  · rename_i hk
    have hsync := h.resolve_left hk
    cases hf : t.frames k with
    | none => rfl
    | some f =>
      funext j
      by_cases hj : j = k
      · subst hj
        rw [seen_of_frame hf]
        unfold seen
        dsimp only
        rw [Function.update_self]
        cases hd : f.dirty with
        | true => rw [if_pos rfl]; exact Function.update_self ..
        | false => rw [if_neg Bool.false_ne_true]; exact hsync f hf hd
      · unfold seen
        dsimp only
        rw [Function.update_of_ne hj]
        split
        · rfl
        · split
          · exact Function.update_of_ne hj ..
          · rfl

/-- An eviction from a synced table is not seen. -/
theorem seen_evict (h : t.Synced) (k : K) : (t.evict k).seen = t.seen :=
  seen_evict_of_syncedAt (Or.inr (h k))

/-- A frame that is evicted has been written if it was dirty. -/
theorem SyncedAt.evict (h : t.SyncedAt j) (k : K) : (t.evict k).SyncedAt j := by
  unfold FrameTable.evict
  split
  · exact h
  · cases hf : t.frames k with
    | none => exact h
    | some f =>
      intro g hg hd
      dsimp only at hg
      have hj : j ≠ k := by
        rintro rfl
        rw [Function.update_self] at hg
        cases hg
      rw [Function.update_of_ne hj] at hg
      show (if f.dirty = true then Function.update t.disk k (some f.page) else t.disk) j = _
      split
      · rw [Function.update_of_ne hj]
        exact h g hg hd
      · exact h g hg hd

theorem Synced.evict (h : t.Synced) (k : K) : (t.evict k).Synced := fun j =>
  SyncedAt.evict (t := t) (h j) k

/-- No frame that is held is evicted. -/
theorem Held.evict (h : t.Held) (k : K) : (t.evict k).Held := by
  unfold FrameTable.evict
  split
  · exact h
  · rename_i hk
    cases hf : t.frames k with
    | none => exact h
    | some f =>
      intro j hj
      have hne : j ≠ k := fun heq => hk (heq ▸ hj)
      show (Function.update t.frames k none j).isSome = true
      rw [Function.update_of_ne hne]
      exact h j hj

theorem pins_evict (t : FrameTable K V) (k : K) : (t.evict k).pins = t.pins := by
  unfold evict
  split
  · rfl
  · cases t.frames k <;> rfl

/-- What `get` answers and leaves. -/
theorem get_eq (t : FrameTable K V) (k : K) :
    (t.get k = none ∧ t.seen k = none) ∨
    ∃ v t', t.get k = some (v, t') ∧ t.seen k = some v ∧ t'.seen = t.seen ∧ t'.pins = k :: t.pins ∧
      (t'.frames k).isSome ∧ (∀ j, (t.frames j).isSome → t'.frames j = t.frames j) ∧
      (t.Synced → t'.Synced) ∧ (t.Held → t'.Held) ∧ t'.dirty = t.dirty := by
  unfold get
  cases hf : t.frames k with
  | some f =>
    refine Or.inr ⟨f.page, _, rfl, seen_of_frame hf, rfl, rfl, ?_, fun _ _ => rfl, fun h => h, fun h => ?_,
      rfl⟩
    · rw [hf]
      rfl
    · intro j hj
      rcases List.mem_cons.mp hj with rfl | hj
      · rw [hf]
        rfl
      · exact h j hj
  | none =>
    have hseen : t.seen k = t.disk k := by
      unfold seen
      rw [hf]
    cases hdisk : t.disk k with
    | none => exact Or.inl ⟨rfl, hseen.trans hdisk⟩
    | some v =>
      have hframe : ∀ j, (t.frames j).isSome →
          Function.update t.frames k (some ⟨v, false⟩) j = t.frames j := by
        intro j hj
        refine Function.update_of_ne ?_ ..
        rintro rfl
        rw [hf] at hj
        cases hj
      refine Or.inr ⟨v, _, rfl, hseen.trans hdisk, ?_, rfl, ?_, hframe, fun h => ?_, fun h => ?_, ?_⟩
      · funext j
        by_cases hj : j = k
        · subst hj
          rw [hseen, hdisk]
          unfold seen
          dsimp only
          rw [Function.update_self]
        · unfold seen
          dsimp only
          rw [Function.update_of_ne hj]
      · dsimp only
        rw [Function.update_self]
        rfl
      · intro j g hg hd
        by_cases hj : j = k
        · subst hj
          dsimp only at hg
          rw [Function.update_self] at hg
          obtain rfl := Option.some.inj hg
          exact hdisk
        · dsimp only at hg
          rw [Function.update_of_ne hj] at hg
          exact h j g hg hd
      · intro j hj
        rcases List.mem_cons.mp hj with rfl | hj
        · dsimp only
          rw [Function.update_self]
          rfl
        · dsimp only
          rw [hframe j (h j hj)]
          exact h j hj
      · funext j
        unfold dirty
        dsimp only
        by_cases hj : j = k
        · subst hj
          rw [Function.update_self, hf]
          rfl
        · rw [Function.update_of_ne hj]

theorem Held.unpin (h : t.Held) (k : K) : (t.unpin k).Held :=
  fun j hj => h j (List.mem_of_mem_erase hj)

/-- A write is seen at its key. -/
theorem seen_write (h : (t.frames k).isSome) (v : V) (mark : Bool) :
    (t.write k v mark).seen = Function.update t.seen k (some v) := by
  obtain ⟨f, hf⟩ := Option.isSome_iff_exists.mp h
  unfold write
  rw [hf]
  funext j
  unfold seen
  dsimp only
  by_cases hj : j = k
  · subst hj
    rw [Function.update_self, Function.update_self]
  · rw [Function.update_of_ne hj, Function.update_of_ne hj]

/-- A write makes no frame. -/
theorem isSome_frames_write (t : FrameTable K V) (k : K) (v : V) (mark : Bool) (j : K) :
    ((t.write k v mark).frames j).isSome = (t.frames j).isSome := by
  unfold write
  cases hf : t.frames k with
  | none => rfl
  | some f =>
    dsimp only
    by_cases hj : j = k
    · subst hj
      rw [Function.update_self, hf]
      rfl
    · rw [Function.update_of_ne hj]

theorem pins_write (t : FrameTable K V) (k : K) (v : V) (mark : Bool) :
    (t.write k v mark).pins = t.pins := by
  unfold write
  cases t.frames k <;> rfl

theorem Held.write (h : t.Held) (k : K) (v : V) (mark : Bool) : (t.write k v mark).Held := by
  intro j hj
  rw [pins_write] at hj
  rw [isSome_frames_write]
  exact h j hj

/-- A write that marks its frame, or finds it marked, keeps the table synced. -/
theorem Synced.write (h : t.Synced) (hmark : mark = true ∨ t.dirty k = true) (v : V) :
    (t.write k v mark).Synced := by
  unfold FrameTable.write
  cases hf : t.frames k with
  | none => exact h
  | some f =>
    intro j g hg hd
    by_cases hj : j = k
    · subst hj
      dsimp only at hg
      rw [Function.update_self] at hg
      obtain rfl := Option.some.inj hg
      unfold FrameTable.dirty at hmark
      rw [hf] at hmark
      rcases hmark with rfl | hmark
      · simp at hd
      · have hfd : f.dirty = true := hmark
        simp [hfd] at hd
    · dsimp only at hg
      rw [Function.update_of_ne hj] at hg
      exact h j g hg hd

/-- A frame that is dirty, or marked, is dirty behind a write. -/
theorem dirty_write (t : FrameTable K V) (k : K) (v : V) (mark : Bool) (j : K) :
    (t.write k v mark).dirty j = (t.dirty j || (mark && decide (j = k) && (t.frames k).isSome)) := by
  unfold write dirty
  cases hf : t.frames k with
  | none => simp
  | some f =>
    dsimp only
    by_cases hj : j = k
    · subst hj
      rw [Function.update_self, hf]
      simp
    · rw [Function.update_of_ne hj]
      simp [hj]

/-- A frame that is pinned stays as it is. -/
theorem dirty_evict (hk : k ∈ t.pins) (j : K) : (t.evict j).dirty k = t.dirty k := by
  unfold evict
  split
  · rfl
  · rename_i hj
    have hne : k ≠ j := fun heq => hj (heq ▸ hk)
    cases t.frames j with
    | none => rfl
    | some f =>
      unfold dirty
      dsimp only
      rw [Function.update_of_ne hne]

/-! ## What all versions of a page have in common -/

section Keeps

variable {X : Type} {g : K → V → X} {x : K → Option X}

/-- An eviction keeps what is seen, unless an unmarked change was in the frame. -/
theorem Keeps.evict (h : t.Keeps g x) (k : K) : (t.evict k).Keeps g x := by
  unfold FrameTable.evict
  split
  · exact h
  · cases hf : t.frames k with
    | none => exact h
    | some f =>
      refine ⟨fun j => ?_, fun j f' hf' => ?_⟩
      · show ((if f.dirty = true then Function.update t.disk k (some f.page) else t.disk) j).map (g j) = x j
        split
        · by_cases hj : j = k
          · subst hj
            rw [Function.update_self]
            exact (h.frame j f hf).symm
          · rw [Function.update_of_ne hj]
            exact h.disk j
        · exact h.disk j
      · dsimp only at hf'
        by_cases hj : j = k
        · subst hj
          rw [Function.update_self] at hf'
          cases hf'
        · rw [Function.update_of_ne hj] at hf'
          exact h.frame j f' hf'

/-- A frame that is read from disk shows what is there. -/
theorem Keeps.get (h : t.Keeps g x) {v : V} (hget : t.get k = some (v, t')) : t'.Keeps g x := by
  unfold FrameTable.get at hget
  cases hf : t.frames k with
  | some f =>
    rw [hf] at hget
    obtain ⟨-, rfl⟩ := Prod.mk.inj (Option.some.inj hget)
    exact ⟨h.disk, h.frame⟩
  | none =>
    rw [hf] at hget
    cases hd : t.disk k with
    | none =>
      rw [hd] at hget
      cases hget
    | some w =>
      rw [hd] at hget
      obtain ⟨-, rfl⟩ := Prod.mk.inj (Option.some.inj hget)
      refine ⟨h.disk, fun j f' hf' => ?_⟩
      by_cases hj : j = k
      · subst hj
        dsimp only at hf'
        rw [Function.update_self] at hf'
        obtain rfl := Option.some.inj hf'
        have := h.disk j
        rw [hd] at this
        exact this.symm
      · dsimp only at hf'
        rw [Function.update_of_ne hj] at hf'
        exact h.frame j f' hf'

theorem Keeps.unpin (h : t.Keeps g x) (k : K) : (t.unpin k).Keeps g x := ⟨h.disk, h.frame⟩

/-- A write that agrees with what is to be kept. -/
theorem Keeps.write (h : t.Keeps g x) {v : V} (hv : x k = some (g k v)) (mark : Bool) :
    (t.write k v mark).Keeps g x := by
  unfold FrameTable.write
  cases hf : t.frames k with
  | none => exact h
  | some f =>
    refine ⟨h.disk, fun j f' hf' => ?_⟩
    by_cases hj : j = k
    · subst hj
      dsimp only at hf'
      rw [Function.update_self] at hf'
      obtain rfl := Option.some.inj hf'
      exact hv
    · dsimp only at hf'
      rw [Function.update_of_ne hj] at hf'
      exact h.frame j f' hf'

end Keeps

/-! ## Tables that look alike -/

/-- The pages are the same to look at, and the same ones are pinned. -/
structure Alike (t t' : FrameTable K V) : Prop where
  seen : t.seen = t'.seen
  pins : t.pins = t'.pins
  left : t.Held
  right : t'.Held

namespace Alike

theorem evict (h : Alike t t') (hsync : t.Synced) (k : K) : Alike (t.evict k) t' :=
  ⟨(seen_evict hsync k).trans h.seen, (pins_evict t k).trans h.pins, h.left.evict k, h.right⟩

/-- Either both answer with the same page, or neither does. -/
theorem get (h : Alike t t') (k : K) :
    (t.get k = none ∧ t'.get k = none) ∨
    ∃ v t₁ t₁', t.get k = some (v, t₁) ∧ t'.get k = some (v, t₁') ∧ Alike t₁ t₁' := by
  rcases get_eq t k with ⟨hnone, hseen⟩ | ⟨v, t₁, hget, hseen, hsame, hpins, -, -, -, hheld, -⟩
  · rcases get_eq t' k with ⟨hnone', -⟩ | ⟨v', t₁', -, hseen', -⟩
    · exact Or.inl ⟨hnone, hnone'⟩
    · rw [← h.seen, hseen] at hseen'
      cases hseen'
  · rcases get_eq t' k with ⟨-, hseen'⟩ | ⟨v', t₁', hget', hseen', hsame', hpins', -, -, -, hheld', -⟩
    · rw [← h.seen, hseen] at hseen'
      cases hseen'
    · rw [← h.seen, hseen] at hseen'
      obtain rfl := Option.some.inj hseen'
      refine Or.inr ⟨v, t₁, t₁', hget, hget', ⟨?_, ?_, hheld h.left, hheld' h.right⟩⟩
      · rw [hsame, hsame', h.seen]
      · rw [hpins, hpins', h.pins]

theorem unpin (h : Alike t t') (k : K) : Alike (t.unpin k) (t'.unpin k) := by
  refine ⟨h.seen, ?_, h.left.unpin k, h.right.unpin k⟩
  unfold FrameTable.unpin
  dsimp only
  rw [h.pins]

theorem write (h : Alike t t') (hk : k ∈ t.pins) (v : V) (mark : Bool) :
    Alike (t.write k v mark) (t'.write k v mark) := by
  refine ⟨?_, ?_, h.left.write k v mark, h.right.write k v mark⟩
  · rw [seen_write (h.left k hk), seen_write (h.right k (h.pins ▸ hk)), h.seen]
  · rw [pins_write, pins_write, h.pins]

end Alike

end FrameTable

end Miniob.Common
