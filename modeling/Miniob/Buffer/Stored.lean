/-
  What is stored below the frames: a page in the map of the double write buffer if there is one, else
  the page in the data file.

  The double write buffer being emptied, as a whole or for one buffer pool, changes nothing of it, and
  `add_page` stores its page.  This holds whatever the slots of the double write file may be.
-/
import Miniob.Buffer.HeldPages

namespace Miniob.Buffer

open Miniob.Common Miniob.Storage

variable {D : Type}

/-- The check sum is set on the way down and not part of the content. -/
def Page.content (page : Page D) : Int × D := (page.lsn, page.data)

/-- The map has one page for a key, and all of them are valid. -/
structure Tidy (b : DiskDoubleWriteBuffer D) : Prop where
  keys : (b.pages.map DoubleWritePage.key).Nodup
  valid : ∀ p ∈ b.pages, p.valid = true

/-- A page below the frames. -/
def stored (b : DiskDoubleWriteBuffer D) (files : Files D) (key : DoubleWritePageKey) :
    Option (Page D) :=
  match b.find key with
  | some p => some p.page
  | none => files.data key

section Stored

open DiskDoubleWriteBuffer

variable {fmt : PageFormat D} {b b' : DiskDoubleWriteBuffer D} {files files' : Files D}

theorem Tidy.empty : Tidy (empty : DiskDoubleWriteBuffer D) := ⟨List.nodup_nil, List.forall_mem_nil _⟩

theorem Tidy.find (h : Tidy b) {p : DoubleWritePage D} (hp : p ∈ b.pages) : b.find p.key = some p := by
  cases hfind : b.find p.key with
  | none => exact absurd rfl (find_none hfind p hp)
  | some q =>
    obtain ⟨hq, hkey⟩ := find_some hfind
    rw [eq_of_key_eq h.keys hq hp hkey]

theorem stored_of_mem (h : Tidy b) {p : DoubleWritePage D} (hp : p ∈ b.pages) :
    stored b files p.key = some p.page := by
  unfold stored
  rw [h.find hp]

theorem stored_of_not_mem {key : DoubleWritePageKey} (hnot : ∀ p ∈ b.pages, p.key ≠ key) :
    stored b files key = files.data key := by
  unfold stored
  cases hfind : b.find key with
  | none => rfl
  | some q =>
    obtain ⟨hq, hkey⟩ := find_some hfind
    exact absurd hkey (hnot q hq)

/-- A page that is stored is so in the map or in its file. -/
theorem stored_cases {key : DoubleWritePageKey} {page : Page D} (h : stored b files key = some page) :
    (∃ p ∈ b.pages, p.key = key ∧ p.page = page) ∨
      ((∀ p ∈ b.pages, p.key ≠ key) ∧ files.data key = some page) := by
  unfold stored at h
  cases hfind : b.find key with
  | none =>
    rw [hfind] at h
    exact Or.inr ⟨find_none hfind, h⟩
  | some p =>
    rw [hfind] at h
    obtain ⟨hp, hkey⟩ := find_some hfind
    exact Or.inl ⟨p, hp, hkey, Option.some.inj h⟩

/-- What is stored stays stored. -/
def Stays (b : DiskDoubleWriteBuffer D) (files : Files D) (b' : DiskDoubleWriteBuffer D)
    (files' : Files D) : Prop :=
  ∀ key page, stored b files key = some page → stored b' files' key = some page

/-- The pages that are written down are in their files. -/
theorem flushWrites_data {key : DoubleWritePageKey} {page : Page D} :
    ∀ {ps : List (DoubleWritePage D)} {files : Files D}, (∀ p ∈ ps, p.valid = true) →
      (∀ p ∈ ps, p.key = key → p.page = page) →
      ((∃ p ∈ ps, p.key = key) ∨ files.data key = some page) →
      (afterWrites (Files.write fmt) files (flushWrites ps)).data key = some page
  | [], _, _, _, h => h.resolve_left fun ⟨_, hp, _⟩ => nomatch hp
  | p :: ps, files, hvalid, hpage, h => by
    have hws : flushWrites (p :: ps) =
        [.data p.key p.page, .slot { p with valid := false }] ++ flushWrites ps := by
      rw [flushWrites, hvalid p (by simp)]
      rfl
    -- the page is written to the data file, then its slot is marked; the others follow
    rw [hws, afterWrites_append]
    refine flushWrites_data (fun q hq => hvalid q (List.mem_cons_of_mem p hq))
      (fun q hq => hpage q (List.mem_cons_of_mem p hq)) ?_
    have hwrite : (afterWrites (Files.write fmt) files
        [.data p.key p.page, .slot { p with valid := false }]).data key =
          writeData fmt files.data p.key p.page key := rfl
    rw [hwrite]
    unfold writeData
    -- it is the page in question, or another one
    by_cases hkey : key = p.key
    · rw [if_pos hkey, hpage p (by simp) hkey.symm]
      exact Or.inr rfl
    · rw [if_neg hkey]
      rcases h with ⟨q, hq, hqkey⟩ | hdata
      · rcases List.mem_cons.mp hq with rfl | hq
        · exact absurd hqkey.symm hkey
        · exact Or.inl ⟨q, hq, hqkey⟩
      · rw [if_neg, hdata]
        · exact Or.inr rfl
        · rintro ⟨-, -, hnone⟩
          rw [hdata] at hnone
          cases hnone

theorem Tidy.flushPage (fmt : PageFormat D) (h : Tidy b) (files : Files D) (t : Traversal D) :
    Tidy (b.flushPage t).1 ∧
      Stays b files (b.flushPage t).1 (afterWrites (Files.write fmt) files (b.flushPage t).2) := by
  refine ⟨.empty, fun key page hstored => ?_⟩
  have hperm := t.perm b.pages
  refine flushWrites_data (fun p hp => h.valid p (hperm.mem_iff.mp hp)) ?_ ?_
  · intro p hp hkey
    subst hkey
    rw [stored_of_mem h (hperm.mem_iff.mp hp)] at hstored
    exact Option.some.inj hstored
  · rcases stored_cases hstored with ⟨p, hp, hkey, -⟩ | ⟨-, hdata⟩
    · exact Or.inl ⟨p, hperm.mem_iff.mpr hp, hkey⟩
    · exact Or.inr hdata

theorem Tidy.clearPages (fmt : PageFormat D) (h : Tidy b) (files : Files D) (bufferPoolId : Int) (t : Traversal D) :
    Tidy (b.clearPages bufferPoolId t).1 ∧
      Stays b files (b.clearPages bufferPoolId t).1
        (afterWrites (Files.write fmt) files (b.clearPages bufferPoolId t).2) := by
  -- what is cleared are the pages of this pool
  have hmem : ∀ {p}, p ∈ b.specPages bufferPoolId t ↔
      p ∈ b.pages ∧ p.key.bufferPoolId = bufferPoolId := by
    intro p
    unfold DiskDoubleWriteBuffer.specPages
    rw [List.mem_mergeSort, List.mem_filter, (t.perm _).mem_iff, decide_eq_true_iff]
  have htidy : Tidy (b.clearPages bufferPoolId t).1 :=
    ⟨h.keys.sublist (List.filter_sublist.map _), fun p hp => h.valid p (List.mem_filter.mp hp).1⟩
  have hws : clearWrites (b.specPages bufferPoolId t) = flushWrites (b.specPages bufferPoolId t) :=
    clearWrites_eq fun p hp => h.valid p (hmem.mp hp).1
  -- they are all written down before they leave the map
  have hdata : ∀ {key page}, stored b files key = some page →
      (∃ p ∈ b.specPages bufferPoolId t, p.key = key) ∨ files.data key = some page →
      (afterWrites (Files.write fmt) files (clearWrites (b.specPages bufferPoolId t))).data key =
        some page := by
    intro key page hstored hor
    rw [hws]
    refine flushWrites_data (fun p hp => h.valid p (hmem.mp hp).1) (fun p hp hkey => ?_) hor
    subst hkey
    rw [stored_of_mem h (hmem.mp hp).1] at hstored
    exact Option.some.inj hstored
  refine ⟨htidy, fun key page hstored => ?_⟩
  rcases stored_cases hstored with ⟨p, hp, rfl, rfl⟩ | ⟨hnot, hfile⟩
  -- a page of this pool is read from the file now, any other one is still held
  · by_cases hid : p.key.bufferPoolId = bufferPoolId
    · rw [stored_of_not_mem]
      · exact hdata hstored (Or.inl ⟨p, hmem.mpr ⟨hp, hid⟩, rfl⟩)
      · intro q hq heq
        have := of_decide_eq_true (List.mem_filter.mp hq).2
        exact this (heq ▸ hid)
    · exact stored_of_mem htidy (List.mem_filter.mpr ⟨hp, decide_eq_true hid⟩)
  · rw [stored_of_not_mem fun q hq => hnot q (List.mem_filter.mp hq).1]
    exact hdata hstored (Or.inr hfile)

/-- The page is stored, and the other pages as before. -/
def Stores (key : DoubleWritePageKey) (page : Page D) (b : DiskDoubleWriteBuffer D) (files : Files D)
    (b' : DiskDoubleWriteBuffer D) (files' : Files D) : Prop :=
  stored b' files' key = some page ∧
    ∀ k ≠ key, ∀ x, stored b files k = some x → stored b' files' k = some x

/-- **`add_page`.** -/
theorem Tidy.addPage (fmt : PageFormat D) (h : Tidy b) (files : Files D) (maxPages : Nat) (key : DoubleWritePageKey)
    (page : Page D) (t : Traversal D) :
    Tidy (b.addPage maxPages key page t).1 ∧ Stores key page b files
      (b.addPage maxPages key page t).1
      (afterWrites (Files.write fmt) files (b.addPage maxPages key page t).2) := by
  unfold DiskDoubleWriteBuffer.addPage
  cases hfind : b.find key with
  | some p =>
    obtain ⟨hp, rfl⟩ := find_some hfind
    have htidy : Tidy { b with
        pages := b.pages.map fun q => if q.key = p.key then { q with page } else q } := by
      refine ⟨?_, fun q hq => ?_⟩
      · show (List.map _ (List.map _ _)).Nodup
        rw [map_setPage]
        exact h.keys
      · obtain ⟨q₀, hq₀, rfl⟩ := List.mem_map.mp hq
        have := h.valid q₀ hq₀
        split <;> exact this
    refine ⟨htidy, ?_, fun k hk x hstored => ?_⟩
    · exact stored_of_mem htidy (p := { p with page }) (List.mem_map.mpr ⟨p, hp, if_pos rfl⟩)
    · rcases stored_cases hstored with ⟨q, hq, rfl, rfl⟩ | ⟨hnot, hdata⟩
      · exact stored_of_mem htidy (List.mem_map.mpr ⟨q, hq, if_neg hk⟩)
      · refine (stored_of_not_mem fun q hq => ?_).trans hdata
        obtain ⟨q₀, hq₀, rfl⟩ := List.mem_map.mp hq
        have := hnot q₀ hq₀
        split <;> exact this
  | none =>
    have hnew := find_none hfind
    -- the map before it is flushed
    have hadd : ∀ pageCnt (files' : Files D), files'.data = files.data →
        Tidy ⟨b.pages ++ [⟨key, b.pages.length, true, page⟩], pageCnt⟩ ∧
          Stores key page b files ⟨b.pages ++ [⟨key, b.pages.length, true, page⟩], pageCnt⟩ files' := by
      intro pageCnt files' hfiles
      have htidy : Tidy ⟨b.pages ++ [⟨key, b.pages.length, true, page⟩], pageCnt⟩ := by
        constructor
        · show (List.map _ (_ ++ _)).Nodup
          rw [List.map_append]
          refine List.nodup_append.mpr ⟨h.keys, List.nodup_singleton _, ?_⟩
          intro k hk k' hk' heq
          obtain rfl := List.mem_singleton.mp hk'
          obtain ⟨q, hq, rfl⟩ := List.mem_map.mp hk
          exact hnew q hq heq
        · intro q hq
          rcases List.mem_append.mp hq with hq | hq
          · exact h.valid q hq
          · obtain rfl := List.mem_singleton.mp hq
            rfl
      refine ⟨htidy, ?_, fun k hk x hstored => ?_⟩
      · exact stored_of_mem htidy (List.mem_append_right _ (List.mem_singleton.mpr rfl))
      · rcases stored_cases hstored with ⟨q, hq, rfl, rfl⟩ | ⟨hnot, hdata⟩
        · exact stored_of_mem htidy (List.mem_append_left _ hq)
        · rw [← hfiles] at hdata
          refine (stored_of_not_mem fun q hq => ?_).trans hdata
          rcases List.mem_append.mp hq with hq | hq
          · exact hnot q hq
          · obtain rfl := List.mem_singleton.mp hq
            exact hk.symm
    have hws : ∀ pageCnt : Nat, (afterWrites (Files.write fmt) files
        (.slot ⟨key, b.pages.length, true, page⟩ ::
          if b.pages.length + 1 > pageCnt then [.header (b.pages.length + 1)] else [])).data =
        files.data := by
      intro pageCnt
      split <;> rfl
    obtain ⟨htidy, hpage, hothers⟩ := hadd (max (b.pages.length + 1) b.pageCnt) _ (hws b.pageCnt)
    dsimp only
    split
    · -- the map is full
      obtain ⟨htidy', hstays⟩ := htidy.flushPage fmt (afterWrites (Files.write fmt) files
        (.slot ⟨key, b.pages.length, true, page⟩ ::
          if b.pages.length + 1 > b.pageCnt then [.header (b.pages.length + 1)] else [])) t
      rw [afterWrites_append]
      exact ⟨htidy', hstays _ _ hpage, fun k hk x hx => hstays _ _ (hothers k hk x hx)⟩
    · exact ⟨htidy, hpage, hothers⟩

end Stored

end Miniob.Buffer
