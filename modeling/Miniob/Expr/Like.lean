/-
  LIKE (`match_str` in src/observer/sql/expr/expression.cpp).

  * `matchStr` fills the table row by row, as the code does; `cell` is the recursion that the table
    satisfies, over the pattern and the text from behind.
  * A `%` of the text is compared with a `%` of the pattern before that is taken for a wildcard.  So the
    run that a wildcard stands for ends at the last `%` (`StopsAtPercent`), and `a%b` is not like `%`.
-/
import Miniob.Common.Wildcard

namespace Miniob.Expr

open Miniob.Common

def percent : UInt8 := 37

def underscore : UInt8 := 95

/-! ## The table -/

/-- `dp[i][j]` from its neighbours, for the character `c` of the pattern and `t` of the text. -/
def nextCell (c t : UInt8) (diag up left : Bool) : Bool :=
  if c = t ∨ c = underscore then diag else if c = percent then up || left else false

/-- The rest of the row behind the entry `left`, from the row above it. -/
def fillRow (c : UInt8) : Bool → List UInt8 → List Bool → List Bool
  | left, t :: text, diag :: up :: above =>
    let entry := nextCell c t diag up left
    entry :: fillRow c entry text (up :: above)
  | _, _, _ => []

/-- The row of one more character of the pattern. -/
def nextRow (text : List UInt8) (above : List Bool) (c : UInt8) : List Bool :=
  let first := decide (c = percent) && above.headD false
  first :: fillRow c first text above

def firstRow (text : List UInt8) : List Bool := true :: text.map fun _ => false

def matchStr (pattern text : List UInt8) : Bool :=
  (pattern.foldl (nextRow text) (firstRow text)).getLastD false

/-! ## The recursion -/

/-- The entry for a pattern and a text, both from behind. -/
def cell : List UInt8 → List UInt8 → Bool
  | [], [] => true
  | [], _ :: _ => false
  | c :: p, [] => decide (c = percent) && cell p []
  | c :: p, t :: s => nextCell c t (cell p s) (cell p (t :: s)) (cell (c :: p) s)

/-- The row of the pattern from the text `s` on. -/
def cells (p : List UInt8) : List UInt8 → List UInt8 → List Bool
  | s, [] => [cell p s]
  | s, t :: text => cell p s :: cells p (t :: s) text

theorem cells_eq_cons (p s text : List UInt8) : ∃ rest, cells p s text = cell p s :: rest := by
  cases text with
  | nil => exact ⟨[], rfl⟩
  | cons t text => exact ⟨cells p (t :: s) text, rfl⟩

/-- The table is filled from left to right. -/
theorem fillRow_cells (c : UInt8) (p s text : List UInt8) :
    cell (c :: p) s :: fillRow c (cell (c :: p) s) text (cells p s text) = cells (c :: p) s text := by
  induction text generalizing s with
  | nil => rfl
  | cons t text ih =>
    obtain ⟨rest, hrest⟩ := cells_eq_cons p (t :: s) text
    have ih := ih (t :: s)
    rw [hrest] at ih
    rw [cells, cells, hrest, fillRow, ← ih, cell]

/-- And from row to row. -/
theorem nextRow_cells (c : UInt8) (p text : List UInt8) :
    nextRow text (cells p [] text) c = cells (c :: p) [] text := by
  obtain ⟨rest, hrest⟩ := cells_eq_cons p [] text
  have hfirst : (decide (c = percent) && (cells p [] text).headD false) = cell (c :: p) [] := by
    rw [hrest, cell]
    rfl
  unfold nextRow
  rw [hfirst]
  exact fillRow_cells c p [] text

theorem cell_nil_cons (t : UInt8) (s : List UInt8) : cell [] (t :: s) = false := by rw [cell]

theorem cells_nil_cons (t : UInt8) (s text : List UInt8) :
    cells [] (t :: s) text = false :: text.map fun _ => false := by
  induction text generalizing s t with
  | nil => rw [cells, cell_nil_cons, List.map_nil]
  | cons u text ih => rw [cells, cell_nil_cons, ih, List.map_cons]

theorem firstRow_eq (text : List UInt8) : firstRow text = cells [] [] text := by
  cases text with
  | nil => rw [cells, cell, firstRow, List.map_nil]
  | cons t text => rw [cells, cells_nil_cons, cell, firstRow, List.map_cons]

theorem getLastD_cells (p s text : List UInt8) (b : Bool) :
    (cells p s text).getLastD b = cell p (text.reverse ++ s) := by
  induction text generalizing s b with
  | nil => rfl
  | cons t text ih =>
    rw [cells, List.getLastD_cons, ih, List.reverse_cons, List.append_assoc, List.singleton_append]

/-- The last cell of the table is the answer. -/
theorem matchStr_eq_cell (pattern text : List UInt8) :
    matchStr pattern text = cell pattern.reverse text.reverse := by
  have hrows : ∀ (pattern p : List UInt8),
      pattern.foldl (nextRow text) (cells p [] text) = cells (pattern.reverse ++ p) [] text := by
    intro pattern
    induction pattern with
    | nil => exact fun p => rfl
    | cons c pattern ih =>
      intro p
      rw [List.foldl_cons, nextRow_cells, ih, List.reverse_cons, List.append_assoc,
        List.singleton_append]
  unfold matchStr
  rw [firstRow_eq, hrows, getLastD_cells, List.append_nil, List.append_nil]

/-! ## What matches -/

/-- The run that a `%` stands for has no `%` but its first character, and starts with the `%` in front
    of it, if there is one. -/
def StopsAtPercent (before : Option UInt8) (w : List UInt8) : Prop :=
  percent ∉ w.tail ∧ (w.head? = some percent ∨ before ≠ some percent)

/-- The text is like the pattern. -/
abbrev Like (pattern text : List UInt8) : Prop := Matches underscore percent pattern text

/-- The text is like the pattern, with runs that stop at a `%`. -/
abbrev LikeStopping (pattern text : List UInt8) : Prop :=
  MatchesIf underscore percent StopsAtPercent none pattern text

theorem LikeStopping.like {pattern text : List UInt8} (h : LikeStopping pattern text) :
    Like pattern text :=
  MatchesIf.mono (fun _ _ _ => trivial) h

theorem stopsAtPercent_nil {before : Option UInt8} : StopsAtPercent before [] ↔ before ≠ some percent := by
  simp [StopsAtPercent]

/-- A run goes on with another character, from where it was. -/
theorem stopsAtPercent_snoc {before : Option UInt8} {w : List UInt8} {t : UInt8} (ht : t ≠ percent) :
    StopsAtPercent before (w ++ [t]) ↔ StopsAtPercent before w := by
  unfold StopsAtPercent
  cases w with
  | nil => simp [ht]
  | cons a w => simp [Ne.symm ht]

/-- Only a run of its own goes on to a `%`. -/
theorem stopsAtPercent_snoc_percent {before : Option UInt8} {w : List UInt8} :
    StopsAtPercent before (w ++ [percent]) ↔ w = [] := by
  unfold StopsAtPercent
  cases w with
  | nil => simp
  | cons a w => simp

/-- The last character of the text against a wildcard for a run. -/
theorem likeStopping_snoc_percent {p s : List UInt8} {t : UInt8} :
    LikeStopping (p ++ [percent]) (s ++ [t]) ↔
      if t = percent then LikeStopping p s
      else LikeStopping p (s ++ [t]) ∨ LikeStopping (p ++ [percent]) s := by
  unfold LikeStopping
  rw [matchesIf_snoc_run]
  constructor
  · rintro ⟨s', w, heq, hw, h⟩
    rcases List.eq_nil_or_concat w with rfl | ⟨w, u, rfl⟩
    · rw [List.append_nil] at heq
      subst heq
      rw [stopsAtPercent_nil, List.getLast?_append, List.getLast?_singleton, Option.some_or,
        Option.some_or, ne_eq, Option.some.injEq] at hw
      rw [if_neg hw]
      exact Or.inl h
    · rw [List.concat_eq_append, ← List.append_assoc] at heq
      obtain ⟨rfl, htu⟩ := List.append_inj' heq rfl
      obtain rfl : t = u := List.singleton_inj.mp htu
      rw [List.concat_eq_append] at hw
      split
      · rename_i ht
        subst ht
        rw [stopsAtPercent_snoc_percent] at hw
        rwa [hw, List.append_nil]
      · rename_i ht
        rw [stopsAtPercent_snoc ht] at hw
        exact Or.inr (matchesIf_snoc_run.mpr ⟨s', w, rfl, hw, h⟩)
  · split
    · rename_i ht
      subst ht
      intro h
      exact ⟨s, [percent], rfl, by simp [StopsAtPercent], h⟩
    · rename_i ht
      rintro (h | h)
      · refine ⟨s ++ [t], [], (List.append_nil _).symm, ?_, h⟩
        rw [stopsAtPercent_nil]
        simpa using ht
      · obtain ⟨s', w, rfl, hw, h⟩ := matchesIf_snoc_run.mp h
        exact ⟨s', w ++ [t], List.append_assoc _ _ _, (stopsAtPercent_snoc ht).mpr hw, h⟩

/-- A cell is true if the rest of the text is like the rest of the pattern, as the code understands it. -/
theorem cell_eq_true (p s : List UInt8) : cell p s = true ↔ LikeStopping p.reverse s.reverse := by
  induction p, s using cell.induct with
  | case1 => simp [cell, LikeStopping, MatchesIf]
  | case2 t s =>
    simp [cell, LikeStopping, MatchesIf]
  | case3 c p ih =>
    rw [cell, Bool.and_eq_true, decide_eq_true_eq, ih, List.reverse_cons, List.reverse_nil]
    constructor
    · rintro ⟨rfl, h⟩
      exact matchesIf_snoc_run.mpr ⟨[], [], rfl, by simp [StopsAtPercent], h⟩
    · intro h
      by_cases hc : c = percent
      · subst hc
        obtain ⟨s, w, heq, -, h⟩ := matchesIf_snoc_run.mp h
        obtain ⟨rfl, rfl⟩ := List.append_eq_nil_iff.mp heq.symm
        exact ⟨rfl, h⟩
      · obtain ⟨s, t, heq, -⟩ := (matchesIf_snoc hc).mp h
        simp at heq
  | case4 c p t s ih₁ ih₂ ih₃ =>
    rw [cell, List.reverse_cons, List.reverse_cons]
    rw [List.reverse_cons] at ih₂ ih₃
    unfold nextCell
    by_cases hc : c = percent
    · subst hc
      rw [likeStopping_snoc_percent]
      have hne : percent ≠ underscore := by decide
      by_cases ht : percent = t
      · rw [if_pos (Or.inl ht), if_pos ht.symm]
        exact ih₁
      · rw [if_neg (not_or.mpr ⟨ht, hne⟩), if_pos rfl, if_neg (Ne.symm ht), Bool.or_eq_true, ih₂, ih₃]
    · have hsnoc : LikeStopping (p.reverse ++ [c]) (s.reverse ++ [t]) ↔
          (c = t ∨ c = underscore) ∧ LikeStopping p.reverse s.reverse := by
        unfold LikeStopping
        rw [matchesIf_snoc hc]
        constructor
        · rintro ⟨s', t', heq, ht, h⟩
          have hlast := List.append_inj' heq rfl
          rw [List.singleton_inj] at hlast
          obtain ⟨rfl, rfl⟩ := hlast
          exact ⟨ht, h⟩
        · rintro ⟨ht, h⟩
          exact ⟨s.reverse, t, rfl, ht, h⟩
      rw [hsnoc]
      split
      · rename_i ht
        rw [ih₁]
        exact (and_iff_right ht).symm
      · rename_i ht
        simp [ht]

/-- The code matches a text with a pattern whose runs stop at a `%`. -/
theorem matchStr_eq_true {pattern text : List UInt8} :
    matchStr pattern text = true ↔ LikeStopping pattern text := by
  rw [matchStr_eq_cell, cell_eq_true, List.reverse_reverse, List.reverse_reverse]

/-! ## Where the code is right -/

/-- In a text without a `%` every run stops. -/
theorem likeStopping_of_no_percent {pattern text : List UInt8} (h : percent ∉ text)
    (hlike : Like pattern text) : LikeStopping pattern text := by
  refine MatchesIf.mono_of_forall (P := fun a => a ≠ percent) (fun b w hb hw _ => ?_) nofun
    (fun a ha heq => h (heq ▸ ha)) hlike
  refine ⟨fun hmem => hw _ (List.mem_of_mem_tail hmem) rfl, Or.inr fun hbefore => ?_⟩
  exact hb percent hbefore rfl

/-- A text without a `%` is matched by the patterns it is like. -/
theorem matchStr_of_no_percent {pattern text : List UInt8} (h : percent ∉ text) :
    matchStr pattern text = true ↔ Like pattern text :=
  matchStr_eq_true.trans ⟨LikeStopping.like, likeStopping_of_no_percent h⟩

/-- **LIKE.**  The table is right about a pattern and a text if and only if the text, when it is like the
    pattern, is so with runs that stop at a `%`. -/
theorem match_str_right_iff (pattern text : List UInt8) :
    (matchStr pattern text = true ↔ Like pattern text) ↔
      (Like pattern text → LikeStopping pattern text) := by
  rw [matchStr_eq_true]
  exact ⟨fun h => h.mpr, fun h => ⟨LikeStopping.like, h⟩⟩

/-- `a%b` is like `%`, but the code does not match it. -/
theorem match_str_percent_in_text :
    ¬ ∀ pattern text : List UInt8, matchStr pattern text = true ↔ Like pattern text := by
  intro h
  have hlike : Like [percent] [97, percent, 98] :=
    Or.inr ⟨rfl, [97, percent, 98], [], rfl, trivial, rfl⟩
  have hmatch := (h _ _).mpr hlike
  exact absurd hmatch (by decide)

end Miniob.Expr
