/-
  Pages between the map and the files.

  A page that is held has its slot to itself, and the slot holds the page (`Held`).  The versions
  that have been accepted are held or in the data files (`Kept`).  Every single write of an operation
  keeps both, for the pages that are still held at that point, so a crash may come anywhere.

  The slot of a new page is the number of pages that are held.  That slot is free, and no slot below
  has the same key, as long as nothing has been cleared in between; `KeepsSlots` asks for it.
-/
import Mathlib.Data.List.Nodup
import Miniob.Buffer.DoubleWrite

namespace Miniob.Buffer

open Miniob.Common Miniob.Storage

variable {D : Type} {fmt : PageFormat D}

/-! ## The invariant -/

/-- The pages are held, and the double write file says so. -/
structure Held (fmt : PageFormat D) (pages : List (DoubleWritePage D)) (files : Files D) : Prop where
  /-- A key is held once. -/
  keys : (pages.map DoubleWritePage.key).Nodup
  /-- Each page is in its slot, and the slot is valid. -/
  slot : ∀ p ∈ pages, p.pageIndex < files.pageCnt ∧ files.slots p.pageIndex = some p ∧ p.valid = true
  /-- All slots in front of the count have been written whole. -/
  written : ∀ i < files.pageCnt, ∃ p, files.slots i = some p ∧ p.pageIndex = i ∧ fmt.Intact p.page
  /-- The valid ones are held. -/
  valid : ∀ i < files.pageCnt, ∀ p, files.slots i = some p → p.valid = true → p ∈ pages
  /-- `load_pages` comes to the slot of the page first. -/
  first : ∀ p ∈ pages, ∀ i < p.pageIndex, ∀ q, files.slots i = some q → q.key ≠ p.key

/-- The accepted versions are held or written back. -/
def Kept (accepted : DoubleWritePageKey → Option (Page D)) (pages : List (DoubleWritePage D))
    (files : Files D) : Prop :=
  ∀ key page, accepted key = some page →
    (∃ p ∈ pages, p.key = key ∧ p.page = page) ∨
      ((∀ p ∈ pages, p.key ≠ key) ∧ files.data key = some page)

/-- What a crash may leave. -/
def Safe (fmt : PageFormat D) (accepted : DoubleWritePageKey → Option (Page D)) (files : Files D) :
    Prop :=
  ∃ pages, Held fmt pages files ∧ Kept accepted pages files

section Pages

variable {pages : List (DoubleWritePage D)} {files : Files D}
  {accepted : DoubleWritePageKey → Option (Page D)}

theorem eq_of_key_eq {p q : DoubleWritePage D} (hkeys : (pages.map DoubleWritePage.key).Nodup)
    (hp : p ∈ pages) (hq : q ∈ pages) (heq : p.key = q.key) : p = q :=
  List.inj_on_of_nodup_map hkeys hp hq heq

/-- Pages in the same slot are the same. -/
theorem Held.eq_of_index_eq (h : Held fmt pages files) {p q : DoubleWritePage D} (hp : p ∈ pages)
    (hq : q ∈ pages) (heq : p.pageIndex = q.pageIndex) : p = q := by
  have hslot := (h.slot p hp).2.1
  rw [heq, (h.slot q hq).2.1] at hslot
  exact (Option.some.inj hslot).symm

/-- Only the set of pages matters. -/
theorem Held.congr {pages' : List (DoubleWritePage D)} (h : Held fmt pages files)
    (hkeys : (pages'.map DoubleWritePage.key).Nodup) (hmem : ∀ p, p ∈ pages' ↔ p ∈ pages) :
    Held fmt pages' files where
  keys := hkeys
  slot p hp := h.slot p ((hmem p).mp hp)
  written := h.written
  valid i hi p hp hv := (hmem p).mpr (h.valid i hi p hp hv)
  first p hp := h.first p ((hmem p).mp hp)

theorem Kept.congr {pages' : List (DoubleWritePage D)} {files' : Files D}
    (h : Kept accepted pages files) (hmem : ∀ p, p ∈ pages' ↔ p ∈ pages)
    (hdata : files'.data = files.data) : Kept accepted pages' files' := by
  intro key page haccepted
  rw [hdata]
  rcases h key page haccepted with ⟨p, hp, hpage⟩ | ⟨hnot, hkept⟩
  · exact Or.inl ⟨p, (hmem p).mpr hp, hpage⟩
  · exact Or.inr ⟨fun p hp => hnot p ((hmem p).mp hp), hkept⟩

/-! ## Single writes -/

/-- A held page goes into its data file. -/
theorem Held.writeData (h : Held fmt pages files) (key : DoubleWritePageKey) (page : Page D) :
    Held fmt pages (files.write fmt (.data key page)) :=
  ⟨h.keys, h.slot, h.written, h.valid, h.first⟩

/-- Writing a held page to its data file loses nothing. -/
theorem Kept.writeData (fmt : PageFormat D) (h : Kept accepted pages files) {p : DoubleWritePage D}
    (hp : p ∈ pages) :
    Kept accepted pages (files.write fmt (.data p.key p.page)) := by
  intro key page haccepted
  rcases h key page haccepted with hheld | ⟨hnot, hdata⟩
  · exact Or.inl hheld
  · refine Or.inr ⟨hnot, ?_⟩
    show Buffer.writeData fmt files.data p.key p.page key = some page
    unfold Buffer.writeData
    rw [if_neg fun heq => hnot p hp heq.symm, if_neg, hdata]
    rintro ⟨-, -, hnone⟩
    rw [hdata] at hnone
    cases hnone

/-- Its slot is marked invalid. -/
theorem Held.invalidate (h : Held fmt pages files) {p : DoubleWritePage D} (hp : p ∈ pages) :
    Held fmt (pages.filter fun q => q.key ≠ p.key)
      (files.write fmt (.slot { p with valid := false })) := by
  obtain ⟨hlt, hslot, -⟩ := h.slot p hp
  have hmem : ∀ {q}, q ∈ pages.filter (fun q => q.key ≠ p.key) ↔ q ∈ pages ∧ q.key ≠ p.key := by
    intro q
    rw [List.mem_filter, decide_eq_true_iff]
  -- one slot changes, and it is the one of `p`
  have hwrite : ∀ i, (files.write fmt (.slot { p with valid := false })).slots i =
      if i = p.pageIndex then some { p with valid := false } else files.slots i := fun _ => rfl
  refine ⟨h.keys.sublist (List.filter_sublist.map _), ?_, ?_, ?_, ?_⟩
  -- the pages left are at the slots they had
  · intro q hq
    obtain ⟨hq, hne⟩ := hmem.mp hq
    obtain ⟨hltq, hslotq, hv⟩ := h.slot q hq
    refine ⟨hltq, ?_, hv⟩
    rw [hwrite, if_neg]
    · exact hslotq
    -- two keys at one slot are one page
    · intro heq
      exact hne (congrArg _ (h.eq_of_index_eq hq hp heq))
  · intro i hi
    rw [hwrite]
    -- every slot below the count is still written, the one of `p` with another mark
    split
    · rename_i heq
      obtain ⟨p', hp', -, hintact⟩ := h.written i hi
      rw [heq, hslot] at hp'
      obtain rfl := Option.some.inj hp'
      exact ⟨_, rfl, heq.symm, hintact⟩
    · exact h.written i hi
  -- a slot that is valid belongs to a page that is left
  · intro i hi q hq hv
    rw [hwrite] at hq
    split at hq
    · obtain rfl := Option.some.inj hq
      cases hv
    · rename_i hne
      have hq' := h.valid i hi q hq hv
      refine hmem.mpr ⟨hq', fun heq => hne ?_⟩
      obtain rfl := eq_of_key_eq h.keys hq' hp heq
      obtain ⟨q', hq'', hindex, -⟩ := h.written i hi
      obtain rfl := Option.some.inj (hq.symm.trans hq'')
      exact hindex.symm
  -- no slot below a page has its key
  · intro q hq i hi q' hq'
    obtain ⟨hq, hne⟩ := hmem.mp hq
    rw [hwrite] at hq'
    split at hq'
    · obtain rfl := Option.some.inj hq'
      exact fun heq => hne heq.symm
    · exact h.first q hq i hi q' hq'

/-- A slot can be cleared when the page is in its data file. -/
theorem Kept.invalidate (h : Kept accepted pages files) (hheld : Held fmt pages files)
    {p : DoubleWritePage D} (hp : p ∈ pages) (hdata : files.data p.key = some p.page) :
    Kept accepted (pages.filter fun q => q.key ≠ p.key)
      (files.write fmt (.slot { p with valid := false })) := by
  intro key page haccepted
  by_cases hkey : key = p.key
  · subst hkey
    refine Or.inr ⟨fun q hq => ?_, ?_⟩
    · have := (List.mem_filter.mp hq).2
      exact of_decide_eq_true this
    · rcases h _ page haccepted with ⟨q, hq, heq, rfl⟩ | ⟨hnot, -⟩
      · obtain rfl := eq_of_key_eq hheld.keys hq hp heq
        exact hdata
      · exact absurd rfl (hnot p hp)
  · rcases h key page haccepted with ⟨q, hq, rfl, hpage⟩ | ⟨hnot, hdata'⟩
    · exact Or.inl ⟨q, List.mem_filter.mpr ⟨hq, decide_eq_true hkey⟩, rfl, hpage⟩
    · exact Or.inr ⟨fun q hq => hnot q (List.mem_filter.mp hq).1, hdata'⟩

/-- A slot that is invalid is written once more. -/
theorem write_invalid (fmt : PageFormat D) {p : DoubleWritePage D} (hslot : files.slots p.pageIndex = some p)
    (hv : p.valid = false) : files.write fmt (.slot { p with valid := false }) = files := by
  have hp : { p with valid := false } = p := by
    rw [← hv]
  rw [hp]
  unfold Files.write
  dsimp only
  congr 1
  funext i
  split
  · rename_i heq
    rw [heq, hslot]
  · rfl

/-! ## `flush_page` and `clear_pages` -/

open DiskDoubleWriteBuffer

/-- **`flush_page`** of some pages of the file, among them pages that are held. -/
theorem flushWrites_spec {ps : List (DoubleWritePage D)} (h : Held fmt pages files)
    (hkept : Kept accepted pages files) (hkeys : (ps.map DoubleWritePage.key).Nodup)
    (hps : ∀ p ∈ ps, files.slots p.pageIndex = some p ∧ (p.valid = true → p ∈ pages)) :
    AtEveryCrash (Files.write fmt) (Safe fmt accepted) files (flushWrites ps) ∧
      ∃ rest, (∀ p, p ∈ rest ↔ p ∈ pages ∧ p ∉ ps) ∧
        Held fmt rest (afterWrites (Files.write fmt) files (flushWrites ps)) ∧
        Kept accepted rest (afterWrites (Files.write fmt) files (flushWrites ps)) := by
  induction ps generalizing pages files with
  | nil => exact ⟨.nil ⟨pages, h, hkept⟩, pages, fun p => by simp, h, hkept⟩
  | cons p ps ih =>
    obtain ⟨hslot, hvalid⟩ := hps p (by simp)
    obtain ⟨hnew, hkeys⟩ := List.nodup_cons.mp hkeys
    have hother : ∀ q ∈ ps, q.key ≠ p.key := fun q hq heq => hnew (heq ▸ List.mem_map_of_mem hq)
    have hindex : ∀ q ∈ ps, q.pageIndex ≠ p.pageIndex := by
      intro q hq heq
      have hslotq := (hps q (List.mem_cons_of_mem p hq)).1
      rw [heq, hslot] at hslotq
      exact hother q hq (congrArg _ (Option.some.inj hslotq).symm)
    cases hv : p.valid with
    | false =>
      -- its slot is written as it stands on disk
      have hsame := write_invalid fmt hslot hv
      obtain ⟨hcrash, rest, hrest, hheld, hkept'⟩ := ih h hkept hkeys fun q hq =>
        hps q (List.mem_cons_of_mem p hq)
      have hnot : p ∉ pages := fun hp => by
        rw [(h.slot p hp).2.2] at hv
        cases hv
      have hws : flushWrites (p :: ps) = .slot { p with valid := false } :: flushWrites ps := by
        rw [flushWrites, hv]
        rfl
      have hafter : afterWrites (Files.write fmt) files (flushWrites (p :: ps)) =
          afterWrites (Files.write fmt) files (flushWrites ps) := by
        rw [hws]
        show afterWrites (Files.write fmt) (files.write fmt _) _ = _
        rw [hsame]
      refine ⟨?_, rest, fun q => ?_, ?_, ?_⟩
      · rw [hws]
        refine .cons ⟨pages, h, hkept⟩ ?_
        rw [hsame]
        exact hcrash
      · rw [hrest, List.mem_cons, not_or]
        constructor
        · rintro ⟨hq, hqs⟩
          exact ⟨hq, fun heq => hnot (heq ▸ hq), hqs⟩
        · rintro ⟨hq, -, hqs⟩
          exact ⟨hq, hqs⟩
      · rw [hafter]
        exact hheld
      · rw [hafter]
        exact hkept'
    | true =>
      -- the page reaches its file before its slot is given up
      have hp := hvalid hv
      have h₁ := h.writeData p.key p.page
      have hkept₁ := hkept.writeData fmt hp
      have hdata : (files.write fmt (.data p.key p.page)).data p.key = some p.page := if_pos rfl
      have h₂ := h₁.invalidate hp
      have hkept₂ := hkept₁.invalidate h₁ hp hdata
      obtain ⟨hcrash, rest, hrest, hheld, hkept'⟩ := ih h₂ hkept₂ hkeys fun q hq => by
        obtain ⟨hslotq, hvalidq⟩ := hps q (List.mem_cons_of_mem p hq)
        refine ⟨(if_neg (hindex q hq)).trans hslotq, fun hvq => ?_⟩
        exact List.mem_filter.mpr ⟨hvalidq hvq, decide_eq_true (hother q hq)⟩
      have hws : flushWrites (p :: ps) =
          .data p.key p.page :: .slot { p with valid := false } :: flushWrites ps := by
        rw [flushWrites, hv]
        rfl
      rw [hws]
      refine ⟨.cons ⟨pages, h, hkept⟩ (.cons ⟨pages, h₁, hkept₁⟩ hcrash), rest, fun q => ?_, hheld,
        hkept'⟩
      rw [hrest, List.mem_filter, decide_eq_true_iff, List.mem_cons, not_or]
      constructor
      · rintro ⟨⟨hq, hne⟩, hqs⟩
        exact ⟨hq, fun heq => hne (heq ▸ rfl), hqs⟩
      · rintro ⟨hq, hne, hqs⟩
        exact ⟨⟨hq, fun heq => hne (eq_of_key_eq h.keys hq hp heq)⟩, hqs⟩

/-- Writing pages leaves the counter in the file. -/
theorem flushWrites_pageCnt : ∀ (ps : List (DoubleWritePage D)) (files : Files D),
    (afterWrites (Files.write fmt) files (flushWrites ps)).pageCnt = files.pageCnt
  | [], _ => rfl
  | p :: ps, files => by
    rw [flushWrites, afterWrites_append]
    refine (flushWrites_pageCnt ps _).trans ?_
    split <;> rfl

/-- `clear_pages` writes what `flush_page` would write of these pages. -/
theorem clearWrites_eq : ∀ {ps : List (DoubleWritePage D)}, (∀ p ∈ ps, p.valid = true) →
    clearWrites ps = flushWrites ps
  | [], _ => rfl
  | p :: ps, hvalid => by
    rw [clearWrites, flushWrites, hvalid p (by simp),
      clearWrites_eq fun q hq => hvalid q (List.mem_cons_of_mem p hq)]
    rfl

/-! ## Restart -/

/-- **`load_pages`** finds a page for each key in the slots, the first one. -/
theorem loadSlots_spec (hwritten : ∀ i < files.pageCnt, ∃ p, files.slots i = some p ∧
    p.pageIndex = i ∧ fmt.Intact p.page) : ∀ {n : Nat}, n ≤ files.pageCnt →
    ∃ ps, loadSlots fmt files.slots n = .ok ps ∧ (ps.map DoubleWritePage.key).Nodup ∧
      (∀ p ∈ ps, files.slots p.pageIndex = some p ∧ p.pageIndex < n) ∧
      ∀ p, files.slots p.pageIndex = some p → p.pageIndex < n →
        (∀ i < p.pageIndex, ∀ q, files.slots i = some q → q.key ≠ p.key) → p ∈ ps
  | 0, _ => ⟨[], rfl, List.nodup_nil, List.forall_mem_nil _, fun _ _ hlt => absurd hlt (by omega)⟩
  | n + 1, hn => by
    -- the slots below are loaded, the last one is read now
    obtain ⟨ps, hrun, hkeys, hslots, hfirst⟩ := loadSlots_spec hwritten (n := n) (by omega)
    obtain ⟨p, hp, rfl, hintact⟩ := hwritten n (by omega)
    -- a slot is below the last one or it is the last one
    have hlast : ∀ q, files.slots q.pageIndex = some q → q.pageIndex < p.pageIndex + 1 →
        q.pageIndex < p.pageIndex ∨ q = p := by
      intro q hq hlt
      rcases Nat.lt_or_eq_of_le (Nat.lt_succ_iff.mp hlt) with hlt | heq
      · exact Or.inl hlt
      · rw [heq, hp] at hq
        exact Or.inr (Option.some.inj hq).symm
    have hweak : ∀ q ∈ ps, files.slots q.pageIndex = some q ∧ q.pageIndex < p.pageIndex + 1 :=
      fun q hq => ⟨(hslots q hq).1, by have := (hslots q hq).2; omega⟩
    by_cases hany : ps.any fun q => q.key = p.key
    · -- the key has been loaded from a slot below
      refine ⟨ps, ?_, hkeys, hweak, ?_⟩
      · rw [loadSlots, bind_ok _ hrun, hp]
        dsimp only
        rw [if_pos hintact, if_pos hany]
        rfl
      · intro q hq hlt hq'
        rcases hlast q hq hlt with hlt | rfl
        · exact hfirst q hq hlt hq'
        · obtain ⟨q', hmem, heq⟩ := List.any_eq_true.mp hany
          obtain ⟨hslot, hlt'⟩ := hslots q' hmem
          exact absurd (of_decide_eq_true heq) (hq' _ hlt' _ hslot)
    -- the key is new: the page is appended
    · refine ⟨ps ++ [p], ?_, ?_, ?_, ?_⟩
      · rw [loadSlots, bind_ok _ hrun, hp]
        dsimp only
        rw [if_pos hintact, if_neg hany]
        rfl
      -- no other page loaded has the key
      · rw [List.map_append]
        refine List.nodup_append.mpr ⟨hkeys, List.nodup_singleton _, ?_⟩
        intro key hkey key' hkey' heq
        obtain rfl := List.mem_singleton.mp hkey'
        obtain ⟨q, hq, rfl⟩ := List.mem_map.mp hkey
        exact hany (List.any_eq_true.mpr ⟨q, hq, decide_eq_true heq⟩)
      · intro q hq
        rcases List.mem_append.mp hq with hq | hq
        · exact hweak q hq
        · obtain rfl := List.mem_singleton.mp hq
          exact ⟨hp, Nat.lt_succ_self _⟩
      · intro q hq hlt hq'
        rcases hlast q hq hlt with hlt | rfl
        · exact List.mem_append_left _ (hfirst q hq hlt hq')
        · exact List.mem_append_right _ (List.mem_singleton.mpr rfl)

/-- **`load_pages` and `recover`**: nothing is held afterwards. -/
theorem recover_spec (h : Held fmt pages files) (hkept : Kept accepted pages files)
    (t : Traversal D) :
    ∃ ws, recover fmt files t = .ok (empty, ws) ∧
      AtEveryCrash (Files.write fmt) (Safe fmt accepted) files ws ∧
      Held fmt [] (afterWrites (Files.write fmt) files ws) ∧
      Kept accepted [] (afterWrites (Files.write fmt) files ws) := by
  obtain ⟨ps, hrun, hkeys, hslots, hfirst⟩ := loadSlots_spec h.written (Nat.le_refl _)
  have hperm := t.perm ps
  obtain ⟨hcrash, rest, hrest, hheld, hkept'⟩ := flushWrites_spec h hkept
    ((hperm.map DoubleWritePage.key).nodup_iff.mpr hkeys) fun p hp => by
      obtain ⟨hslot, hlt⟩ := hslots p (hperm.mem_iff.mp hp)
      exact ⟨hslot, h.valid _ hlt p hslot⟩
  have hnil : rest = [] := by
    refine List.eq_nil_iff_forall_not_mem.mpr fun p hp => ?_
    obtain ⟨hp, hnot⟩ := (hrest p).mp hp
    obtain ⟨hlt, hslot, -⟩ := h.slot p hp
    exact hnot (hperm.mem_iff.mpr (hfirst p hslot hlt (h.first p hp)))
  subst hnil
  have hload : loadPages fmt files = .ok ⟨ps, files.pageCnt⟩ := bind_ok _ hrun
  exact ⟨flushWrites (t.order ps), bind_ok _ hload, hcrash, hheld, hkept'⟩

/-! ## `add_page` -/

/-- A new version of a page keeps its key. -/
theorem map_setPage (pages : List (DoubleWritePage D)) (key : DoubleWritePageKey) (page : Page D) :
    (pages.map fun q => if q.key = key then { q with page } else q).map DoubleWritePage.key =
      pages.map DoubleWritePage.key := by
  rw [List.map_map]
  refine List.map_congr_left fun q _ => ?_
  show DoubleWritePage.key (if q.key = key then _ else _) = q.key
  split <;> rfl

/-- A new version of a page that is held. -/
theorem Held.setPage (h : Held fmt pages files) {p : DoubleWritePage D} (hp : p ∈ pages)
    {page : Page D} (hintact : fmt.Intact page) :
    Held fmt (pages.map fun q => if q.key = p.key then { q with page } else q)
      (files.write fmt (.slot { p with page })) := by
  obtain ⟨hlt, hslot, hv⟩ := h.slot p hp
  have hwrite : ∀ i, (files.write fmt (.slot { p with page })).slots i =
      if i = p.pageIndex then some { p with page } else files.slots i := fun _ => rfl
  have hcases : ∀ q, q ∈ (pages.map fun q => if q.key = p.key then { q with page } else q) ↔
      q = { p with page } ∨ q ∈ pages ∧ q.key ≠ p.key := by
    intro q
    constructor
    · intro hq
      obtain ⟨q₀, hq₀, rfl⟩ := List.mem_map.mp hq
      by_cases hkey : q₀.key = p.key
      · obtain rfl := eq_of_key_eq h.keys hq₀ hp hkey
        exact Or.inl (if_pos rfl)
      · rw [if_neg hkey]
        exact Or.inr ⟨hq₀, hkey⟩
    · rintro (rfl | ⟨hq, hkey⟩)
      · exact List.mem_map.mpr ⟨p, hp, if_pos rfl⟩
      · exact List.mem_map.mpr ⟨q, hq, if_neg hkey⟩
  have hindex : ∀ q ∈ pages, q.key ≠ p.key → q.pageIndex ≠ p.pageIndex := fun q hq hkey heq =>
    hkey (congrArg _ (h.eq_of_index_eq hq hp heq))
  refine ⟨?_, ?_, ?_, ?_, ?_⟩
  · rw [map_setPage]
    exact h.keys
  · intro q hq
    rcases (hcases q).mp hq with rfl | ⟨hq, hkey⟩
    · exact ⟨hlt, if_pos rfl, hv⟩
    · rw [hwrite, if_neg (hindex q hq hkey)]
      exact h.slot q hq
  · intro i hi
    rw [hwrite]
    split
    · rename_i heq
      exact ⟨_, rfl, heq.symm, hintact⟩
    · exact h.written i hi
  · intro i hi q hq hvq
    rw [hwrite] at hq
    refine (hcases q).mpr ?_
    split at hq
    · exact Or.inl (Option.some.inj hq).symm
    · rename_i hne
      refine Or.inr ⟨h.valid i hi q hq hvq, fun hkey => hne ?_⟩
      obtain rfl := eq_of_key_eq h.keys (h.valid i hi q hq hvq) hp hkey
      obtain ⟨q', hq', heq, -⟩ := h.written i hi
      obtain rfl := Option.some.inj (hq.symm.trans hq')
      exact heq.symm
  · intro q hq i hi q' hq'
    rw [hwrite] at hq'
    rcases (hcases q).mp hq with rfl | ⟨hq, hkey⟩
    · have hne : i ≠ p.pageIndex := Nat.ne_of_lt hi
      rw [if_neg hne] at hq'
      exact h.first p hp i hi q' hq'
    · split at hq'
      · obtain rfl := Option.some.inj hq'
        exact fun heq => hkey heq.symm
      · exact h.first q hq i hi q' hq'

/-- What has been accepted with one page more. -/
def accept (accepted : DoubleWritePageKey → Option (Page D)) (key : DoubleWritePageKey)
    (page : Page D) : DoubleWritePageKey → Option (Page D) :=
  fun k => if k = key then some page else accepted k

/-- A page that is there is replaced by the newer one. -/
theorem Kept.setPage (h : Kept accepted pages files) {p : DoubleWritePage D} (hp : p ∈ pages)
    (page : Page D) : Kept (accept accepted p.key page)
      (pages.map fun q => if q.key = p.key then { q with page } else q) files := by
  intro key page' haccepted
  unfold accept at haccepted
  split at haccepted
  · rename_i hkey
    subst hkey
    obtain rfl := Option.some.inj haccepted
    exact Or.inl ⟨{ p with page }, List.mem_map.mpr ⟨p, hp, if_pos rfl⟩, rfl, rfl⟩
  · rename_i hkey
    rcases h key page' haccepted with ⟨q, hq, rfl, rfl⟩ | ⟨hnot, hdata⟩
    · exact Or.inl ⟨q, List.mem_map.mpr ⟨q, hq, if_neg hkey⟩, rfl, rfl⟩
    · refine Or.inr ⟨fun q' hq' => ?_, hdata⟩
      obtain ⟨q, hq, rfl⟩ := List.mem_map.mp hq'
      have := hnot q hq
      split <;> exact this

/-- A slot behind the ones that the header counts. -/
theorem Held.writeBehind (h : Held fmt pages files) {p : DoubleWritePage D}
    (hp : files.pageCnt ≤ p.pageIndex) : Held fmt pages (files.write fmt (.slot p)) := by
  have hwrite : ∀ i < files.pageCnt, (files.write fmt (.slot p)).slots i = files.slots i :=
    fun i hi => if_neg (by omega)
  refine ⟨h.keys, ?_, ?_, ?_, ?_⟩
  · intro q hq
    have hslot := h.slot q hq
    rw [hwrite _ hslot.1]
    exact hslot
  · intro i hi
    rw [hwrite i hi]
    exact h.written i hi
  · intro i hi q hq
    rw [hwrite i hi] at hq
    exact h.valid i hi q hq
  · intro q hq i hi q' hq'
    have hlt := (h.slot q hq).1
    rw [hwrite i (by omega)] at hq'
    exact h.first q hq i hi q' hq'

/-- A new page, in a slot that no held page has. -/
theorem Held.insert (h : Held fmt pages files) {p : DoubleWritePage D} {pageCnt : Nat}
    (hv : p.valid = true) (hintact : fmt.Intact p.page) (hnew : ∀ q ∈ pages, q.key ≠ p.key)
    (hfree : ∀ q ∈ pages, q.pageIndex ≠ p.pageIndex)
    (hlower : ∀ i < p.pageIndex, ∀ q, files.slots i = some q → q.key ≠ p.key)
    (hheld : ∀ q ∈ pages, q.pageIndex < pageCnt) (hindex : p.pageIndex < pageCnt)
    (hle : p.pageIndex ≤ files.pageCnt) (hcnt : pageCnt ≤ max (p.pageIndex + 1) files.pageCnt) :
    Held fmt (pages ++ [p]) { files.write fmt (.slot p) with pageCnt } := by
  have hwrite : ∀ i, (files.write fmt (.slot p)).slots i =
      if i = p.pageIndex then some p else files.slots i := fun _ => rfl
  have hold : ∀ i < pageCnt, i ≠ p.pageIndex → i < files.pageCnt := by
    intro i hi hne
    omega
  -- the keys stay different: the new one is in no page held
  refine ⟨?_, ?_, ?_, ?_, ?_⟩
  · rw [List.map_append]
    refine List.nodup_append.mpr ⟨h.keys, List.nodup_singleton _, ?_⟩
    intro key hkey key' hkey' heq
    obtain rfl := List.mem_singleton.mp hkey'
    obtain ⟨q, hq, rfl⟩ := List.mem_map.mp hkey
    exact hnew q hq heq
  -- every page is in its slot
  · intro q hq
    rcases List.mem_append.mp hq with hq | hq
    · obtain ⟨-, hslot, hvq⟩ := h.slot q hq
      exact ⟨hheld q hq, (if_neg (hfree q hq)).trans hslot, hvq⟩
    · obtain rfl := List.mem_singleton.mp hq
      exact ⟨hindex, if_pos rfl, hv⟩
  -- every slot below the count has been written
  · intro i hi
    show ∃ q, (files.write fmt (.slot p)).slots i = some q ∧ _
    rw [hwrite]
    split
    · rename_i heq
      exact ⟨p, rfl, heq.symm, hintact⟩
    · rename_i hne
      exact h.written i (hold i hi hne)
  -- every valid slot is held
  · intro i hi q hq hvq
    replace hq : (files.write fmt (.slot p)).slots i = some q := hq
    rw [hwrite] at hq
    split at hq
    · obtain rfl := Option.some.inj hq
      exact List.mem_append_right _ (List.mem_singleton.mpr rfl)
    · rename_i hne
      exact List.mem_append_left _ (h.valid i (hold i hi hne) q hq hvq)
  -- no slot below a page has its key: nothing held has the new one, and `hlower` is the rest
  · intro q hq i hi q' hq'
    replace hq' : (files.write fmt (.slot p)).slots i = some q' := hq'
    rw [hwrite] at hq'
    rcases List.mem_append.mp hq with hq | hq
    · split at hq'
      · obtain rfl := Option.some.inj hq'
        exact fun heq => hnew q hq heq.symm
      · exact h.first q hq i hi q' hq'
    · obtain rfl := List.mem_singleton.mp hq
      rw [if_neg (Nat.ne_of_lt hi)] at hq'
      exact hlower i hi q' hq'

/-- A new page is held. -/
theorem Kept.insert (h : Kept accepted pages files) (p : DoubleWritePage D) :
    Kept (accept accepted p.key p.page) (pages ++ [p]) files := by
  intro key page haccepted
  unfold accept at haccepted
  split at haccepted
  · rename_i hkey
    subst hkey
    obtain rfl := Option.some.inj haccepted
    exact Or.inl ⟨p, List.mem_append_right _ (List.mem_singleton.mpr rfl), rfl, rfl⟩
  · rename_i hkey
    rcases h key page haccepted with ⟨q, hq, rfl, rfl⟩ | ⟨hnot, hdata⟩
    · exact Or.inl ⟨q, List.mem_append_left _ hq, rfl, rfl⟩
    · refine Or.inr ⟨fun q hq => ?_, hdata⟩
      rcases List.mem_append.mp hq with hq | hq
      · exact hnot q hq
      · obtain rfl := List.mem_singleton.mp hq
        exact fun heq => hkey heq.symm

end Pages

/-! ## The buffer -/

/-- The map, the header and the files belong together. -/
structure Sound (fmt : PageFormat D) (s : DoubleWrites D) : Prop where
  held : Held fmt s.buffer.pages s.files
  kept : Kept s.accepted s.buffer.pages s.files
  /-- `flush_page` sets the counter in memory back, but not the one in the file. -/
  header : s.buffer.pageCnt = s.files.pageCnt ∨ s.buffer.pages = [] ∧ s.buffer.pageCnt = 0
  count : s.buffer.pages.length ≤ s.buffer.pageCnt

/-- Pages come with their check sums, as `DiskBufferPool::flush_page_internal` sets them.  When a page
    comes that is not held, the slot behind as many slots as there are pages is not that of a held
    page, and no slot below holds an old version of the page. -/
def KeepsSlots (fmt : PageFormat D) (s : DoubleWrites D) : BufferAction D → Prop
  | .addPage key page _ => fmt.Intact page ∧ ((∀ p ∈ s.buffer.pages, p.key ≠ key) →
      (∀ p ∈ s.buffer.pages, p.pageIndex ≠ s.buffer.pages.length) ∧
      ∀ i < s.buffer.pages.length, ∀ p, s.files.slots i = some p → p.key ≠ key)
  | _ => True

section Buffer

open DiskDoubleWriteBuffer

variable {s s' : DoubleWrites D} {maxPages : Nat}

theorem find_some {b : DiskDoubleWriteBuffer D} {key : DoubleWritePageKey} {p : DoubleWritePage D}
    (h : b.find key = some p) : p ∈ b.pages ∧ p.key = key := by
  have hkey := List.find?_some h
  exact ⟨List.mem_of_find?_eq_some h, of_decide_eq_true hkey⟩

theorem find_none {b : DiskDoubleWriteBuffer D} {key : DoubleWritePageKey}
    (h : b.find key = none) : ∀ p ∈ b.pages, p.key ≠ key := by
  intro p hp heq
  have := List.find?_eq_none.mp h p hp
  exact this (decide_eq_true heq)

/-- What an operation comes to. -/
def Keeps (fmt : PageFormat D) (s : DoubleWrites D)
    (accepted : DoubleWritePageKey → Option (Page D))
    (out : DiskDoubleWriteBuffer D × List (Write D)) : Prop :=
  AtEveryCrash (Files.write fmt) (fun files => Safe fmt s.accepted files ∨ Safe fmt accepted files)
      s.files out.2 ∧
    Sound fmt ⟨out.1, afterWrites (Files.write fmt) s.files out.2, accepted⟩

/-- All pages are written, and the buffer is empty. -/
theorem Sound.flushPage (h : Sound fmt s) (t : Traversal D) :
    Keeps fmt s s.accepted (s.buffer.flushPage t) := by
  have hperm := t.perm s.buffer.pages
  obtain ⟨hcrash, rest, hrest, hheld, hkept⟩ := flushWrites_spec h.held h.kept
    ((hperm.map DoubleWritePage.key).nodup_iff.mpr h.held.keys) fun p hp =>
      have hp := hperm.mem_iff.mp hp
      ⟨(h.held.slot p hp).2.1, fun _ => hp⟩
  have hnil : rest = [] := List.eq_nil_iff_forall_not_mem.mpr fun p hp =>
    ((hrest p).mp hp).2 (hperm.mem_iff.mpr ((hrest p).mp hp).1)
  subst hnil
  exact ⟨hcrash.mono fun _ => Or.inl, hheld, hkept, Or.inr ⟨rfl, rfl⟩, Nat.zero_le _⟩

/-- The pages of one pool are written, and the others are still held. -/
theorem Sound.clearPages (h : Sound fmt s) (bufferPoolId : Int) (t : Traversal D) :
    Keeps fmt s s.accepted (s.buffer.clearPages bufferPoolId t) := by
  have hmem : ∀ {p}, p ∈ s.buffer.specPages bufferPoolId t ↔
      p ∈ s.buffer.pages ∧ p.key.bufferPoolId = bufferPoolId := by
    intro p
    unfold DiskDoubleWriteBuffer.specPages
    rw [List.mem_mergeSort, List.mem_filter, (t.perm _).mem_iff, decide_eq_true_iff]
  have hkeys : ((s.buffer.specPages bufferPoolId t).map DoubleWritePage.key).Nodup := by
    refine (((List.mergeSort_perm ..).map _).nodup_iff).mpr ?_
    refine List.Nodup.sublist (List.filter_sublist.map _) ?_
    exact ((t.perm _).map _).nodup_iff.mpr h.held.keys
  have hws : clearWrites (s.buffer.specPages bufferPoolId t) =
      flushWrites (s.buffer.specPages bufferPoolId t) :=
    clearWrites_eq fun p hp => (h.held.slot p (hmem.mp hp).1).2.2
  obtain ⟨hcrash, rest, hrest, hheld, hkept⟩ := flushWrites_spec h.held h.kept hkeys fun p hp =>
    ⟨(h.held.slot p (hmem.mp hp).1).2.1, fun _ => (hmem.mp hp).1⟩
  have hfilter : ∀ p, p ∈ (s.buffer.pages.filter fun p => p.key.bufferPoolId ≠ bufferPoolId) ↔
      p ∈ rest := by
    intro p
    rw [List.mem_filter, hrest, hmem, decide_eq_true_iff]
    tauto
  unfold DiskDoubleWriteBuffer.clearPages
  rw [hws]
  refine ⟨hcrash.mono fun _ => Or.inl, hheld.congr ?_ hfilter, hkept.congr hfilter rfl, ?_, ?_⟩
  · exact h.held.keys.sublist (List.filter_sublist.map _)
  · rcases h.header with heq | ⟨hnil, hzero⟩
    · exact Or.inl (heq.trans (flushWrites_pageCnt _ _).symm)
    · refine Or.inr ⟨?_, hzero⟩
      show List.filter _ s.buffer.pages = []
      rw [hnil]
      rfl
  · exact Nat.le_trans (List.length_filter_le ..) h.count

/-- A page that is not held, before the map is flushed. -/
theorem Sound.addNew (h : Sound fmt s) {key : DoubleWritePageKey} {page : Page D}
    (hintact : fmt.Intact page) (hnew : ∀ p ∈ s.buffer.pages, p.key ≠ key)
    (hfree : ∀ p ∈ s.buffer.pages, p.pageIndex ≠ s.buffer.pages.length)
    (hlower : ∀ i < s.buffer.pages.length, ∀ p, s.files.slots i = some p → p.key ≠ key) :
    Keeps fmt s (accept s.accepted key page)
      (⟨s.buffer.pages ++ [⟨key, s.buffer.pages.length, true, page⟩],
        max (s.buffer.pages.length + 1) s.buffer.pageCnt⟩,
      .slot ⟨key, s.buffer.pages.length, true, page⟩ ::
        if s.buffer.pages.length + 1 > s.buffer.pageCnt then [.header (s.buffer.pages.length + 1)]
        else []) := by
  have hcount := h.count
  -- the header on disk counts every page, or none is held
  have hle : s.buffer.pages.length ≤ s.files.pageCnt := by
    rcases h.header with heq | ⟨hnil, -⟩
    · omega
    · rw [hnil]
      exact Nat.zero_le _
  have hheld : ∀ pageCnt, (∀ q ∈ s.buffer.pages, q.pageIndex < pageCnt) →
      s.buffer.pages.length < pageCnt →
      pageCnt ≤ max (s.buffer.pages.length + 1) s.files.pageCnt →
      Held fmt (s.buffer.pages ++ [⟨key, s.buffer.pages.length, true, page⟩])
        { s.files.write fmt (.slot ⟨key, s.buffer.pages.length, true, page⟩) with pageCnt } :=
    fun pageCnt hold hindex hcnt =>
      h.held.insert rfl hintact hnew hfree hlower hold hindex hle hcnt
  have hkept := h.kept.insert ⟨key, s.buffer.pages.length, true, page⟩
  have hold : ∀ q ∈ s.buffer.pages, q.pageIndex < s.files.pageCnt := fun q hq => (h.held.slot q hq).1
  -- the header is written when the count grows
  by_cases hgrow : s.buffer.pages.length + 1 > s.buffer.pageCnt
  · rw [if_pos hgrow]
    have hlast := hheld (s.buffer.pages.length + 1) (fun q hq => ?_) (Nat.lt_succ_self _)
      (Nat.le_max_left ..)
    · refine ⟨.cons (Or.inl ⟨_, h.held, h.kept⟩) (.single ?_ (Or.inr ⟨_, hlast, hkept⟩)), hlast, hkept,
        Or.inl (Nat.max_eq_left (Nat.le_of_lt hgrow)), ?_⟩
      · -- the slot is written, the header is not
        rcases Nat.lt_or_ge s.buffer.pages.length s.files.pageCnt with hlt | hge
        · exact Or.inr ⟨_, hheld s.files.pageCnt hold hlt (Nat.le_max_right ..), hkept⟩
        · exact Or.inl ⟨_, h.held.writeBehind hge, h.kept⟩
      · show (s.buffer.pages ++ [_]).length ≤ max _ _
        rw [List.length_append]
        exact Nat.le_max_left ..
    · rcases h.header with heq | ⟨hnil, -⟩
      · have := hold q hq
        omega
      · rw [hnil] at hq
        cases hq
  -- the slot is used again, and the header stays
  · rw [if_neg hgrow]
    have heq : s.buffer.pageCnt = s.files.pageCnt := by
      rcases h.header with heq | ⟨-, hzero⟩
      · exact heq
      · omega
    have hlast := hheld s.files.pageCnt hold (by omega) (Nat.le_max_right ..)
    refine ⟨.single (Or.inl ⟨_, h.held, h.kept⟩) (Or.inr ⟨_, hlast, hkept⟩), hlast, hkept,
      Or.inl ?_, ?_⟩
    · show max _ _ = s.files.pageCnt
      rw [← heq]
      exact Nat.max_eq_right (by omega)
    · show (s.buffer.pages ++ [_]).length ≤ max _ _
      rw [List.length_append]
      exact Nat.le_max_left ..

/-- A page is accepted, unless another one is in its slot. -/
theorem Sound.addPage (h : Sound fmt s) {key : DoubleWritePageKey} {page : Page D} {t : Traversal D}
    (hok : KeepsSlots fmt s (.addPage key page t)) :
    Keeps fmt s (accept s.accepted key page) (s.buffer.addPage maxPages key page t) := by
  obtain ⟨hintact, hslots⟩ := hok
  unfold DiskDoubleWriteBuffer.addPage
  cases hfind : s.buffer.find key with
  | some p =>
    obtain ⟨hp, rfl⟩ := find_some hfind
    have hheld := h.held.setPage hp hintact
    have hkept := h.kept.setPage hp page
    refine ⟨.single (Or.inl ⟨_, h.held, h.kept⟩) (Or.inr ⟨_, hheld, hkept⟩), hheld, hkept, ?_, ?_⟩
    · rcases h.header with heq | ⟨hnil, -⟩
      · exact Or.inl heq
      · rw [hnil] at hp
        cases hp
    · show (List.map _ s.buffer.pages).length ≤ s.buffer.pageCnt
      rw [List.length_map]
      exact h.count
  | none =>
    have hnew := find_none hfind
    obtain ⟨hfree, hlower⟩ := hslots hnew
    obtain ⟨hcrash, hsound⟩ := h.addNew hintact hnew hfree hlower
    dsimp only
    split
    · -- the map is full
      obtain ⟨hcrash', hsound'⟩ := hsound.flushPage t
      refine ⟨hcrash.append (hcrash'.mono fun _ hor => Or.inr (hor.elim id id)), ?_⟩
      rw [afterWrites_append]
      exact hsound'
    · exact ⟨hcrash, hsound⟩

/-- **Step.** -/
theorem Sound.run (maxPages : Nat) (h : Sound fmt s) {a : BufferAction D}
    (hok : KeepsSlots fmt s a) :
    ∃ result out, s.run fmt maxPages a = .ok (result, out) ∧
      Keeps fmt s (DoubleWrites.accepts s.accepted a) out := by
  cases a with
  | addPage key page t => exact ⟨_, _, rfl, h.addPage hok⟩
  | readPage key => exact ⟨_, _, rfl, .nil (Or.inl ⟨_, h.held, h.kept⟩), h⟩
  | flushPage t => exact ⟨_, _, rfl, h.flushPage t⟩
  | clearPages bufferPoolId t => exact ⟨_, _, rfl, h.clearPages bufferPoolId t⟩
  | restart t =>
    obtain ⟨ws, hrun, hcrash, hheld, hkept⟩ := recover_spec h.held h.kept t
    refine ⟨.ok none, (.empty, ws), ?_, hcrash.mono fun _ => Or.inl, hheld, hkept,
      Or.inr ⟨rfl, rfl⟩, Nat.zero_le _⟩
    exact bind_ok _ hrun

/-- The step lemma. -/
theorem Sound.step {a : BufferAction D} {result : Except RC (Option (Page D))} (h : Sound fmt s)
    (hok : KeepsSlots fmt s a) (hstep : s.step fmt maxPages a = .ok (result, s')) : Sound fmt s' := by
  obtain ⟨result', out, hrun, -, hsound⟩ := h.run maxPages hok
  have hstep' := bind_ok (fun out => Except.ok (ε := RC) (out.1, (⟨out.2.1,
    afterWrites (Files.write fmt) s.files out.2.2, DoubleWrites.accepts s.accepted a⟩ :
      DoubleWrites D))) hrun
  obtain ⟨-, rfl⟩ := Prod.mk.inj (Except.ok.inj (hstep'.symm.trans hstep))
  exact hsound

theorem Sound.opened (data : DoubleWritePageKey → Option (Page D)) :
    Sound fmt (DoubleWrites.opened data) where
  held := ⟨List.nodup_nil, List.forall_mem_nil _, fun _ hi => absurd hi (Nat.not_lt_zero _),
    fun _ hi => absurd hi (Nat.not_lt_zero _), List.forall_mem_nil _⟩
  kept _ _ h := nomatch h
  header := Or.inl rfl
  count := Nat.le_refl 0

end Buffer

/-! ## Statements -/

/-- Pages that are held have slots of their own, which the header counts, and the slots hold them. -/
def Consistent (b : DiskDoubleWriteBuffer D) (files : Files D) : Prop :=
  b.pages.Pairwise (fun p q => p.pageIndex ≠ q.pageIndex) ∧
    ∀ p ∈ b.pages, p.pageIndex < b.pageCnt ∧ p.pageIndex < files.pageCnt ∧
      files.slots p.pageIndex = some p

/-- `load_pages` and `recover` succeed, and then the accepted versions are in the data files. -/
def WritesBack (fmt : PageFormat D) (accepted : DoubleWritePageKey → Option (Page D))
    (files : Files D) : Prop :=
  ∀ t, ∃ b ws, recover fmt files t = .ok (b, ws) ∧ ∀ key page, accepted key = some page →
    (afterWrites (Files.write fmt) files ws).data key = some page

/-- The held pages are in the file, and wherever the next action may be cut off, recovery writes back
    what has been accepted before it or by it. -/
def SurvivesCrash (fmt : PageFormat D) (maxPages : Nat) (s : DoubleWrites D) (a : BufferAction D) :
    Prop :=
  Consistent s.buffer s.files ∧ ∃ result b ws, s.run fmt maxPages a = .ok (result, b, ws) ∧ ∀ k,
    WritesBack fmt s.accepted (afterWrites (Files.write fmt) s.files (ws.take k)) ∨
      WritesBack fmt (DoubleWrites.accepts s.accepted a)
        (afterWrites (Files.write fmt) s.files (ws.take k))

/-- What is in the buffer is newer than what is on disk. -/
theorem Sound.consistent {s : DoubleWrites D} (h : Sound fmt s) : Consistent s.buffer s.files := by
  constructor
  · have hnodup : s.buffer.pages.Nodup := h.held.keys.of_map _
    exact hnodup.imp_of_mem fun hp hq hne heq => hne (h.held.eq_of_index_eq hp hq heq)
  · intro p hp
    obtain ⟨hlt, hslot, -⟩ := h.held.slot p hp
    refine ⟨?_, hlt, hslot⟩
    rcases h.header with heq | ⟨hnil, -⟩
    · omega
    · rw [hnil] at hp
      cases hp

/-- Recovery writes what had been accepted. -/
theorem Safe.writesBack {accepted : DoubleWritePageKey → Option (Page D)} {files : Files D}
    (h : Safe fmt accepted files) : WritesBack fmt accepted files := by
  intro t
  obtain ⟨pages, hheld, hkept⟩ := h
  obtain ⟨ws, hrun, -, -, hkept'⟩ := recover_spec hheld hkept t
  refine ⟨_, ws, hrun, fun key page haccepted => ?_⟩
  rcases hkept' key page haccepted with ⟨p, hp, -⟩ | ⟨-, hdata⟩
  · cases hp
  · exact hdata

/-- **Headline.**  In a run whose new pages go to free slots, the file holds the pages of the map, and a
    crash between any two writes loses nothing. -/
theorem double_write_survives_crash (fmt : PageFormat D) (maxPages : Nat)
    (data : DoubleWritePageKey → Option (Page D)) (s : DoubleWrites D)
    (h : Reachable (DoubleWrites.step fmt maxPages) (KeepsSlots fmt) (.opened data) s)
    (a : BufferAction D) (hok : KeepsSlots fmt s a) : SurvivesCrash fmt maxPages s a := by
  have hsound : Sound fmt s := h.invariant (I := Sound fmt) (Sound.opened data)
    fun _ _ _ _ hs hok hstep => hs.step hok hstep
  obtain ⟨result, out, hrun, hcrash, -⟩ := hsound.run maxPages hok
  refine ⟨hsound.consistent, result, out.1, out.2, hrun, fun k => ?_⟩
  rcases hcrash k with hsafe | hsafe
  · exact Or.inl hsafe.writesBack
  · exact Or.inr hsafe.writesBack

/-! ## Examples -/

/-- Pages that are numbers, with themselves as check sums. -/
def numbers : PageFormat Nat := ⟨UInt32.ofNat, 0⟩

/-- A page with its check sum. -/
def numberPage (n : Nat) : Page Nat := ⟨0, UInt32.ofNat n, n⟩

/-- Pages of two buffer pools are added one after the other. -/
theorem double_write_survives_crash_two : ∃ s : DoubleWrites Nat, s.buffer.pages.length = 1 ∧
    SurvivesCrash numbers 16 s (.addPage ⟨1, 1⟩ (numberPage 8) .inserted) := by
  have h₀ : Reachable (DoubleWrites.step numbers 16) (KeepsSlots numbers) (.opened fun _ => none)
    (.opened fun _ => none) := .init
  have h₁ := h₀.next (.addPage ⟨0, 1⟩ (numberPage 7) .inserted) ⟨rfl, fun _ =>
    ⟨List.forall_mem_nil _, fun _ hi => absurd hi (Nat.not_lt_zero _)⟩⟩ rfl
  refine ⟨_, rfl, double_write_survives_crash numbers 16 _ _ h₁ _ ⟨rfl, fun _ => ⟨?_, ?_⟩⟩⟩
  · intro p hp
    obtain rfl := List.mem_singleton.mp hp
    nofun
  · intro i hi p hp
    obtain rfl : i = 0 := Nat.lt_one_iff.mp hi
    obtain rfl := Option.some.inj hp
    nofun

/-- The pages that are added carry their check sums. -/
def WithCheckSums (fmt : PageFormat D) : BufferAction D → Prop
  | .addPage _ page _ => fmt.Intact page
  | _ => True

/-- A page of a pool is added, and one of another pool; the first pool is closed, and the next page
    takes the slot of the page that is still held. -/
theorem cleared_slot_collides : ¬ ∀ (s : DoubleWrites Nat) (a : BufferAction Nat),
    Reachable (DoubleWrites.step numbers 16) (fun _ a => WithCheckSums numbers a)
      (.opened fun _ => none) s → WithCheckSums numbers a → SurvivesCrash numbers 16 s a := by
  intro h
  have h₀ : Reachable (DoubleWrites.step numbers 16) (fun _ a => WithCheckSums numbers a)
    (.opened fun _ => none) (.opened fun _ => none) := .init
  have h₁ := h₀.next (.addPage ⟨0, 1⟩ (numberPage 7) .inserted) rfl rfl
  have h₂ := h₁.next (.addPage ⟨1, 1⟩ (numberPage 8) .inserted) rfl rfl
  have h₃ := h₂.next (.clearPages 0 .inserted) trivial rfl
  have h₄ := h₃.next (.addPage ⟨1, 2⟩ (numberPage 9) .inserted) rfl rfl
  obtain ⟨⟨hpairwise, -⟩, -⟩ := h _ (.readPage ⟨1, 1⟩) h₄ trivial
  have hne := (List.pairwise_cons.mp hpairwise).1 _ (List.mem_singleton.mpr rfl)
  exact hne rfl

end Miniob.Buffer
