/-
  Redo of a log over pages.

  Every entry of the log changes one page at most.  The image of a page carries the number of the
  entry it was last changed by; redo leaves an entry out when the image is not older.  Images may
  have been taken at different times: as long as each of them is what the page was after some
  prefix of the log, redo of the whole log leads to what the pages were at its end
  (`redoLog_current`).
-/
import Miniob.Common.Run

namespace Miniob.Common

/-- What an entry of a log means: the page it is about, if any, and what it does to the page. -/
structure PageLog (P S E F : Type) where
  page : E → Option P
  apply : E → S → Except F S

/-- A page as it is stored. -/
structure PageImage (S : Type) where
  lsn : Nat
  content : S

namespace PageLog

variable {P S E F : Type} [DecidableEq P] (pl : PageLog P S E F)

/-- The pages with one of them replaced. -/
def setPage {X : Type} (pages : P → X) (p : P) (x : X) : P → X := fun q => if q = p then x else pages q

def applyEntry (e : E) (pages : P → S) : Except F (P → S) :=
  match pl.page e with
  | none => .ok pages
  | some p => do
    let s ← pl.apply e (pages p)
    return setPage pages p s

def applyLog : List E → (P → S) → Except F (P → S)
  | [], pages => .ok pages
  | e :: es, pages => do
    let pages ← pl.applyEntry e pages
    applyLog es pages

/-- Redo one entry, whose number is `lsn`. -/
def redoEntry (lsn : Nat) (e : E) (disk : P → PageImage S) : Except F (P → PageImage S) :=
  match pl.page e with
  | none => .ok disk
  | some p =>
    if lsn ≤ (disk p).lsn then .ok disk
    else do
      let s ← pl.apply e (disk p).content
      return setPage disk p ⟨lsn, s⟩

/-- Redo entries; `n` of the log are already behind. -/
def redoLog : Nat → List E → (P → PageImage S) → Except F (P → PageImage S)
  | _, [], disk => .ok disk
  | n, e :: es, disk => do
    let disk ← pl.redoEntry (n + 1) e disk
    redoLog (n + 1) es disk

variable {pl}

@[simp] theorem setPage_self {X : Type} (pages : P → X) (p : P) (x : X) : setPage pages p x p = x :=
  if_pos rfl

theorem setPage_of_ne {X : Type} (pages : P → X) {p q : P} (x : X) (h : q ≠ p) :
    setPage pages p x q = pages q :=
  if_neg h

theorem applyLog_append : ∀ {es es' : List E} {pages pages' : P → S},
    pl.applyLog es pages = .ok pages' → pl.applyLog (es ++ es') pages = pl.applyLog es' pages'
  | [], es', pages, pages', h => by
    obtain rfl := Except.ok.inj h
    rfl
  | e :: es, es', pages, pages', h => by
    obtain ⟨pages₁, he, hes⟩ := ok_of_bind h
    exact (bind_ok _ he).trans (applyLog_append hes)

/-- The image of `p` was taken when `n` entries were behind, or when some of the entries `es` were
    as well, from then on. -/
def Current (pl : PageLog P S E F) (n : Nat) (es : List E) (pages : P → S) (p : P)
    (image : PageImage S) : Prop :=
  (image.lsn ≤ n ∧ image.content = pages p) ∨
  ∃ j pages', j < es.length ∧ image.lsn = n + j + 1 ∧
    pl.applyLog (es.take (j + 1)) pages = .ok pages' ∧ image.content = pages' p

/-- An image stays current when an entry that it has seen, or that is about another page, is
    behind. -/
theorem Current.tail {n : Nat} {e : E} {es : List E} {pages pages₁ : P → S} {p : P}
    {image : PageImage S} (h : Current pl n (e :: es) pages p image)
    (he : pl.applyEntry e pages = .ok pages₁) (hsame : image.lsn ≤ n → pages₁ p = pages p) :
    Current pl (n + 1) es pages₁ p image := by
  rcases h with ⟨hlsn, hc⟩ | ⟨j, pages', hj, hlsn, happly, hc⟩
  · exact Or.inl ⟨by omega, hc.trans (hsame hlsn).symm⟩
  · rw [List.take_succ_cons] at happly
    replace happly : pl.applyLog (es.take j) pages₁ = .ok pages' := (bind_ok _ he).symm.trans happly
    cases j with
    | zero =>
      obtain rfl := Except.ok.inj happly
      exact Or.inl ⟨by omega, hc⟩
    | succ j =>
      rw [List.length_cons] at hj
      exact Or.inr ⟨j, pages', by omega, by omega, happly, hc⟩

/-- **Step.**  Redo of an entry keeps the images current. -/
theorem redoEntry_current {n : Nat} {e : E} {es : List E} {pages pages₁ : P → S}
    {disk : P → PageImage S} (h : ∀ p, Current pl n (e :: es) pages p (disk p))
    (he : pl.applyEntry e pages = .ok pages₁) :
    ∃ disk', pl.redoEntry (n + 1) e disk = .ok disk' ∧ ∀ p, Current pl (n + 1) es pages₁ p (disk' p) := by
  have happlied := he
  unfold applyEntry at happlied
  unfold redoEntry
  cases hp : pl.page e with
  | none =>
    rw [hp] at happlied
    obtain rfl := Except.ok.inj happlied
    exact ⟨disk, rfl, fun p => (h p).tail he fun _ => rfl⟩
  | some p =>
    rw [hp] at happlied
    obtain ⟨s, hs, hpages⟩ := ok_of_bind happlied
    obtain rfl := Except.ok.inj hpages
    dsimp only
    have hother : ∀ q, q ≠ p → Current pl (n + 1) es (setPage pages p s) q (disk q) := fun q hq =>
      (h q).tail he fun _ => setPage_of_ne pages s hq
    split
    · rename_i hseen
      refine ⟨disk, rfl, fun q => ?_⟩
      by_cases hq : q = p
      · subst hq
        exact (h q).tail he fun hle => absurd hseen (by omega)
      · exact hother q hq
    · rename_i hnew
      -- the image has not seen any of the entries that are left
      have hcontent : (disk p).content = pages p := by
        rcases h p with ⟨-, hc⟩ | ⟨j, -, -, hlsn, -⟩
        · exact hc
        · omega
      rw [hcontent]
      refine ⟨_, bind_ok _ hs, fun q => ?_⟩
      by_cases hq : q = p
      · subst hq
        exact Or.inl (by simp)
      · rw [setPage_of_ne disk _ hq]
        exact hother q hq

/-- **Run.**  Redo of a log over current images succeeds, and the pages are as they were at the end of
    the log. -/
theorem redoLog_current : ∀ {es : List E} {n : Nat} {pages pages' : P → S} {disk : P → PageImage S},
    (∀ p, Current pl n es pages p (disk p)) → pl.applyLog es pages = .ok pages' →
      ∃ disk', pl.redoLog n es disk = .ok disk' ∧ ∀ p, (disk' p).content = pages' p
  | [], n, pages, pages', disk, h, happly => by
    obtain rfl := Except.ok.inj happly
    refine ⟨disk, rfl, fun p => ?_⟩
    rcases h p with ⟨-, hc⟩ | ⟨j, -, hj, -⟩
    · exact hc
    · exact absurd hj (Nat.not_lt_zero j)
  | e :: es, n, pages, pages', disk, h, happly => by
    obtain ⟨pages₁, he, hes⟩ := ok_of_bind happly
    obtain ⟨disk₁, hredo, h₁⟩ := redoEntry_current h he
    obtain ⟨disk', hrest, hcontent⟩ := redoLog_current h₁ hes
    exact ⟨disk', (bind_ok _ hredo).trans hrest, hcontent⟩

end PageLog

end Miniob.Common
