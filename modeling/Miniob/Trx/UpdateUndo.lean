/-
  UPDATE does all or nothing.

  If the operator returns `SUCCESS`, the changed rows are in the place of the old ones.  If it does not,
  all old rows are in the file again, though perhaps at other places: nothing but a full file could
  refuse them, and they fit since they have been in the file before.
-/
import Miniob.Db.Backed
import Miniob.Trx.Indexes

namespace Miniob.Trx

open Miniob.Common Miniob.Db Miniob.Storage

variable {D U : Type}

/-- The file refuses a row only if it holds at least so many. -/
def HoldsRows (p : Placement D) (capacity : Nat) : Prop :=
  ∀ n f rc, p.place n f = .error rc → capacity ≤ f.rids.length

theorem areStored_of_added {f f' : RecordFile D} {rows : List (RecordId × Row D)}
    (h : Added f' f rows) : AreStored f rows := ⟨h.nodup, h.stored⟩

/-! ## The loops -/

section Loops

variable {t₀ t t' : Table D U} {p : Placement D} {n n' : Nat} {rc : RC}

theorem deleteOldRows_undone {rows : List (RecordId × Row D)} : ∀ {t : Table D U}
    {done : List (Row D)}, AreStored t.file rows →
    deleteOldRows p n t done rows = .ok (rc, n', t') →
    rc = .success ∧ Added t'.file t.file rows ∧ (Table.Backed t₀ t → Table.Backed t₀ t') := by
  induction rows with
  | nil =>
    intro t done _ hrun
    obtain ⟨rfl, h'⟩ := Prod.mk.inj (Except.ok.inj hrun)
    obtain ⟨-, rfl⟩ := Prod.mk.inj h'
    exact ⟨rfl, Added.refl _, id⟩
  | cons o rows ih =>
    intro t done hstored hrun
    rw [deleteOldRows] at hrun
    obtain ⟨⟨rc', t₁⟩, hdel, hrun⟩ := ok_of_bind hrun
    have ho : t.file.row o.1 = some o.2 := hstored.2 o (by simp)
    obtain ⟨rfl, hfile⟩ := Table.deleteRecord_stored ho hdel
    dsimp only at hrun
    rw [if_neg (by simp)] at hrun
    obtain ⟨hrc, hadded, hback⟩ := ih (hfile ▸ hstored.tail) hrun
    rw [hfile] at hadded
    exact ⟨hrc, hadded.of_unbind ho, fun h => hback (h.deleteRecord ho hdel).2.2⟩

theorem deleteRows_undone {rows : List (RecordId × Row D)} : ∀ {t : Table D U},
    AreStored t.file rows → deleteRows t rows = .ok (rc, t') →
    rc = .success ∧ Added t'.file t.file rows ∧ (Table.Backed t₀ t → Table.Backed t₀ t') := by
  induction rows with
  | nil =>
    intro t _ hrun
    obtain ⟨rfl, rfl⟩ := Prod.mk.inj (Except.ok.inj hrun)
    exact ⟨rfl, Added.refl _, id⟩
  | cons o rows ih =>
    intro t hstored hrun
    rw [deleteRows] at hrun
    obtain ⟨⟨rc', t₁⟩, hdel, hrun⟩ := ok_of_bind hrun
    have ho : t.file.row o.1 = some o.2 := hstored.2 o (by simp)
    obtain ⟨rfl, hfile⟩ := Table.deleteRecord_stored ho hdel
    dsimp only at hrun
    rw [if_neg (by simp)] at hrun
    obtain ⟨hrc, hadded, hback⟩ := ih (hfile ▸ hstored.tail) hrun
    rw [hfile] at hadded
    exact ⟨hrc, hadded.of_unbind ho, fun h => hback (h.deleteRecord ho hdel).2.2⟩

/-- What the second loop has inserted, the last row first. -/
theorem insertNewRows_added {f₀ : RecordFile D} {rows : List (Row D)} : ∀ {t : Table D U} {n : Nat}
    {done done' : List (RecordId × Row D)}, Added f₀ t.file done →
    insertNewRows p n t done rows = .ok (rc, n', done', t') →
    Added f₀ t'.file done' ∧ (Table.Backed t₀ t → Table.Backed t₀ t') ∧
      (rc = .success → done'.map Prod.snd = rows.reverse ++ done.map Prod.snd) := by
  induction rows with
  | nil =>
    intro t n done done' hadded hrun
    obtain ⟨rfl, h'⟩ := Prod.mk.inj (Except.ok.inj hrun)
    obtain ⟨-, h'⟩ := Prod.mk.inj h'
    obtain ⟨rfl, rfl⟩ := Prod.mk.inj h'
    exact ⟨hadded, id, fun _ => rfl⟩
  | cons r rows ih =>
    intro t n done done' hadded hrun
    rw [insertNewRows] at hrun
    obtain ⟨⟨rc', rid, t₁⟩, hins, hnext⟩ := ok_of_bind hrun
    clear hrun
    dsimp only at hnext
    split at hnext
    · rename_i rid'
      cases Table.insertRecord_file hins with
      | rejected hrc _ => exact absurd rfl hrc
      | stored hfree hfile =>
        have hadded₁ : Added f₀ t₁.file ((rid', r) :: done) := by
          rw [hfile]
          exact @Added.bind D f₀ t.file done (rid', r) hadded hfree
        obtain ⟨h', hback, hsnd⟩ := ih hadded₁ hnext
        refine ⟨h', fun h => hback (h.insertRecord hins).1, fun hrc => ?_⟩
        rw [hsnd hrc]
        simp
    · rename_i hne
      obtain ⟨rfl, h'⟩ := Prod.mk.inj (Except.ok.inj hnext)
      obtain ⟨-, h'⟩ := Prod.mk.inj h'
      obtain ⟨rfl, rfl⟩ := Prod.mk.inj h'
      cases Table.insertRecord_file hins with
      | stored _ _ => exact absurd rfl (hne _ rfl)
      | rejected hrc hfile =>
        rw [hfile]
        exact ⟨hadded, fun h => (h.insertRecord hins).1, fun hrc' => absurd hrc' hrc⟩

/-- Rows that were in the table are put back. -/
theorem insertRows_back {f₀ : RecordFile D} {capacity : Nat} (h₀ : t₀.Indexed)
    (hp : HoldsRows p capacity) (hfits : t₀.file.rids.length ≤ capacity) {rows : List (Row D)} :
    ∀ {t : Table D U} {n : Nat} {done : List (RecordId × Row D)}, Table.Backed t₀ t →
    t₀.contents = (rows.map Row.data : List D) + t.contents → Added f₀ t.file done →
    insertRows p n t rows = .ok (rc, n', t') →
    rc = .success ∧ ∃ done', Added f₀ t'.file done' ∧
      done'.map Prod.snd = rows.reverse ++ done.map Prod.snd := by
  -- the induction is on the old rows that are still to be put back
  induction rows with
  | nil =>
    intro t n done _ _ hadded hrun
    obtain ⟨rfl, h'⟩ := Prod.mk.inj (Except.ok.inj hrun)
    obtain ⟨-, rfl⟩ := Prod.mk.inj h'
    exact ⟨rfl, done, hadded, rfl⟩
  | cons r rows ih =>
    intro t n done hback hcontents hadded hrun
    rw [insertRows] at hrun
    obtain ⟨⟨rc', rid, t₁⟩, hins, hnext⟩ := ok_of_bind hrun
    clear hrun
    dsimp only at hnext
    have hcons : t₀.contents = r.data ::ₘ (rows.map Row.data : List D) + t.contents := hcontents
    obtain ⟨hback₁, hfail⟩ := hback.insertRecord hins
    -- none of them is refused: the indexes hold what they held before, less this row
    have hrc' : rc' = .success := by
      by_contra hrc'
      rcases hfail hrc' with ⟨rc'', hfull⟩ | ⟨rid', hfree, i, hi, hrej⟩
      · -- there is room: the table has held more rows
        have hroom := hp n t.file rc'' hfull
        have hcard := congrArg Multiset.card hcons
        rw [Multiset.card_add, Multiset.card_cons, ← Table.length_rids, ← Table.length_rids] at hcard
        omega
      · exact hback.not_rejects h₀ hcons rfl hfree i hi hrej
    subst hrc'
    rw [if_neg (by simp)] at hnext
    -- the row is back in the file, at some place, and so is its entry
    cases Table.insertRecord_file hins with
    | rejected hrc _ => exact absurd rfl hrc
    | stored hfree hfile =>
      rename_i rid'
      have hadded₁ : Added f₀ t₁.file ((rid', r) :: done) := by
        rw [hfile]
        exact @Added.bind D f₀ t.file done (rid', r) hadded hfree
      have hcontents₁ : t₀.contents = (rows.map Row.data : List D) + t₁.contents := by
        rw [Table.contents_bind hfree hfile, Multiset.add_cons, ← Multiset.cons_add]
        exact hcons
      obtain ⟨hrc, done', hadded', hsnd⟩ := ih hback₁ hcontents₁ hadded₁ hnext
      refine ⟨hrc, done', hadded', ?_⟩
      rw [hsnd]
      simp

end Loops

/-! ## The operator -/

/-- The rows `old` of the file are replaced by rows with the same hidden fields and changed data. -/
def Replaced (f f' : RecordFile D) (old : List (RecordId × Row D)) (set : D → D) : Prop :=
  ∃ mid new, Added mid f old ∧ Added mid f' new ∧
    (new.map Prod.snd).Perm (old.map fun o => { o.2 with data := set o.2.data })

theorem replaced_refl (f : RecordFile D) : Replaced f f [] id :=
  ⟨f, [], .refl f, .refl f, .nil⟩

/-- **UPDATE.**  All rows the statement selects are changed, or no row is. -/
theorem openUpdate_allOrNothing {t t' : Table D U} {T : Int} {stmt : UpdateStmt D} {p : Placement D}
    {rc : RC} (hrun : openUpdate t T stmt p = .ok (rc, t')) :
    (rc = .success → (scanRecords T t.file stmt.select (stmt.access.rids t.file)).1 = .recordEof →
      Replaced t.file t'.file (stmt.selected T t) stmt.set) ∧
    ((∃ capacity, HoldsRows p capacity ∧ t.file.rids.length ≤ capacity) → t.Indexed →
      rc ≠ .success → ∃ old, Replaced t.file t'.file old id) := by
  have hstored := selected_stored t T stmt
  unfold openUpdate at hrun
  cases hscan : scanRecords T t.file stmt.select (stmt.access.rids t.file) with
  | mk rc₀ oldRecords =>
  rw [hscan] at hrun
  dsimp only at hrun
  -- the scan comes to its end and selects the rows, or the statement has written nothing
  by_cases hrc₀ : rc₀ = .recordEof
  · subst hrc₀
    obtain rfl : stmt.selected T t = oldRecords := by
      unfold UpdateStmt.selected
      rw [hscan]
    rw [if_neg (by simp)] at hrun
    -- the old rows are deleted
    obtain ⟨⟨rc₁, n₁, t₁⟩, hold, hrun₁⟩ := ok_of_bind hrun
    clear hrun
    obtain ⟨rfl, hmid, hback₁⟩ := @deleteOldRows_undone D U t _ p 0 _ _ _ _ _ hstored hold
    dsimp only at hrun₁
    rw [if_neg (by simp)] at hrun₁
    -- the new rows are written, and the first one refused ends the loop
    obtain ⟨⟨rc₂, n₂, done, t₂⟩, hnew, hrun₂⟩ := ok_of_bind hrun₁
    clear hrun₁
    obtain ⟨hadded₂, hback₂, hsnd⟩ :=
      @insertNewRows_added D U t _ p _ _ _ _ _ _ [] _ (Added.refl t₁.file) hnew
    dsimp only at hrun₂
    by_cases hrc₂ : rc₂ = .success
    · rw [if_pos hrc₂] at hrun₂
      obtain ⟨rfl, rfl⟩ := Prod.mk.inj (Except.ok.inj hrun₂)
      refine ⟨fun _ _ => ⟨t₁.file, done, hmid, hadded₂, ?_⟩, fun _ _ hne => absurd rfl hne⟩
      rw [hsnd hrc₂, List.map_nil, List.append_nil]
      exact List.reverse_perm _
    -- a row was refused: the new rows written so far are deleted again
    · rw [if_neg hrc₂] at hrun₂
      obtain ⟨⟨rc₃, t₃⟩, hdel, hrun₃⟩ := ok_of_bind hrun₂
      clear hrun₂
      obtain ⟨rfl, hmid₃, hback₃⟩ := @deleteRows_undone D U t _ _ _ _ (areStored_of_added hadded₂) hdel
      have hfile₃ : t₃.file = t₁.file := hmid₃.base_unique hadded₂
      dsimp only at hrun₃
      rw [if_neg (by simp)] at hrun₃
      -- and the old rows are put back
      obtain ⟨⟨rc₄, n₄, t₄⟩, hput, hrun₄⟩ := ok_of_bind hrun₃
      clear hrun₃
      dsimp only at hrun₄
      have hrc : rc ≠ .success := by
        split at hrun₄
        · rename_i hrc₄
          exact (Prod.mk.inj (Except.ok.inj hrun₄)).1 ▸ hrc₄
        · exact (Prod.mk.inj (Except.ok.inj hrun₄)).1 ▸ hrc₂
      refine ⟨fun hsucc => absurd hsucc hrc, fun ⟨capacity, hp, hfits⟩ hindexed _ => ?_⟩
      -- what is left in the file and the old rows are together what was there before
      have hcontents : t.contents =
          (((stmt.selected T t).map Prod.snd).map Row.data : List D) + t₃.contents := by
        unfold Table.contents
        rw [hfile₃, hmid.collect, List.map_map, ← List.filterMap_eq_map]
        rfl
      obtain ⟨rfl, done', hadded', hsnd'⟩ := @insertRows_back D U t t₄ p n₄ rc₄ t₃.file capacity
        hindexed hp hfits _ t₃ n₂ [] (hback₃ (hback₂ (hback₁ hindexed.backed))) hcontents
        (Added.refl t₃.file) hput
      rw [if_neg (by simp)] at hrun₄
      obtain ⟨rfl, rfl⟩ := Prod.mk.inj (Except.ok.inj hrun₄)
      refine ⟨stmt.selected T t, t₁.file, done', hmid, hfile₃ ▸ hadded', ?_⟩
      rw [hsnd', List.map_nil, List.append_nil]
      exact List.reverse_perm _
  · rw [if_pos hrc₀] at hrun
    obtain ⟨rfl, rfl⟩ := Prod.mk.inj (Except.ok.inj hrun)
    refine ⟨fun _ heof => absurd heof hrc₀, fun _ _ _ => ⟨[], replaced_refl _⟩⟩

end Miniob.Trx
