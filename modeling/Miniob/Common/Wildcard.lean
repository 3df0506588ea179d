/-
  Patterns with wildcards: one symbol that stands for any single character, and one that stands for a
  run of characters.

  `MatchesIf R` says which runs are allowed: `R` gets the character in front of the run, if there is one,
  and the run.  `Matches` allows all of them.  A pattern is taken apart at any place
  (`matchesIf_append`), so that a procedure may work from either end.
-/
import Mathlib.Data.List.Basic
import Mathlib.Data.List.Infix

namespace Miniob.Common

variable {α : Type} (one run : α) (R : Option α → List α → Prop)

/-- The text matches the pattern; `before` is the character in front of the text. -/
def MatchesIf : Option α → List α → List α → Prop
  | _, [], text => text = []
  | before, c :: pattern, text =>
    (c ≠ run ∧ ∃ t rest, text = t :: rest ∧ (c = t ∨ c = one) ∧ MatchesIf (some t) pattern rest) ∨
    (c = run ∧ ∃ w rest, text = w ++ rest ∧ R before w ∧ MatchesIf (w.getLast?.or before) pattern rest)

/-- The text matches the pattern. -/
def Matches (pattern text : List α) : Prop := MatchesIf one run (fun _ _ => True) none pattern text

variable {one run R} {before : Option α} {pattern rest text : List α}

/-- More runs are allowed where every character satisfies `P`. -/
theorem MatchesIf.mono_of_forall {S : Option α → List α → Prop} {P : α → Prop}
    (h : ∀ b w, (∀ a ∈ b, P a) → (∀ a ∈ w, P a) → R b w → S b w) :
    ∀ {pattern text : List α} {before : Option α}, (∀ a ∈ before, P a) → (∀ a ∈ text, P a) →
      MatchesIf one run R before pattern text → MatchesIf one run S before pattern text := by
  intro pattern
  induction pattern with
  | nil => exact fun _ _ htext => htext
  | cons c pattern ih =>
    rintro text before hbefore htext (⟨hc, t, rest, rfl, ht, hrest⟩ | ⟨hc, w, rest, rfl, hw, hrest⟩)
    · have ht' := htext t List.mem_cons_self
      refine Or.inl ⟨hc, t, rest, rfl, ht, ih (fun a ha => ?_) (fun a ha => ?_) hrest⟩
      · rwa [← Option.mem_some.mp ha]
      · exact htext a (List.mem_cons_of_mem t ha)
    · have hw' : ∀ a ∈ w, P a := fun a ha => htext a (List.mem_append_left rest ha)
      refine Or.inr ⟨hc, w, rest, rfl, h _ _ hbefore hw' hw, ih (fun a ha => ?_) (fun a ha => ?_) hrest⟩
      · -- the character in front of the rest ends the run, or is the one in front of an empty run
        rcases Option.or_eq_some_iff.mp ha with hlast | ⟨-, hfront⟩
        · exact hw' a (List.mem_of_getLast? hlast)
        · exact hbefore a hfront
      · exact htext a (List.mem_append_right w ha)

theorem MatchesIf.mono {S : Option α → List α → Prop} (h : ∀ b w, R b w → S b w)
    {pattern text : List α} {before : Option α} (hmatch : MatchesIf one run R before pattern text) :
    MatchesIf one run S before pattern text :=
  hmatch.mono_of_forall (P := fun _ => True) (fun b w _ _ => h b w) (fun _ _ => trivial)
    fun _ _ => trivial

/-- The last character of a text, or the one in front of it. -/
theorem getLast?_append_or (xs ys : List α) (before : Option α) :
    (xs ++ ys).getLast?.or before = ys.getLast?.or (xs.getLast?.or before) := by
  rw [List.getLast?_append, Option.or_assoc]

/-- The two parts of a pattern match two parts of the text. -/
theorem matchesIf_append : ∀ {pattern text : List α} {before : Option α},
    MatchesIf one run R before (pattern ++ rest) text ↔ ∃ s₁ s₂, text = s₁ ++ s₂ ∧
      MatchesIf one run R before pattern s₁ ∧ MatchesIf one run R (s₁.getLast?.or before) rest s₂ := by
  intro pattern
  induction pattern with
  | nil =>
    intro text before
    constructor
    · exact fun h => ⟨[], text, rfl, rfl, h⟩
    · rintro ⟨s₁, s₂, rfl, rfl, h⟩
      exact h
  | cons c pattern ih =>
    intro text before
    constructor
    · rintro (⟨hc, t, text', rfl, ht, h⟩ | ⟨hc, w, text', rfl, hw, h⟩)
      · obtain ⟨s₁, s₂, rfl, h₁, h₂⟩ := ih.mp h
        refine ⟨t :: s₁, s₂, rfl, Or.inl ⟨hc, t, s₁, rfl, ht, h₁⟩, ?_⟩
        have hlast := getLast?_append_or [t] s₁ before
        rw [List.singleton_append] at hlast
        rw [hlast]
        exact h₂
      · obtain ⟨s₁, s₂, rfl, h₁, h₂⟩ := ih.mp h
        refine ⟨w ++ s₁, s₂, (List.append_assoc _ _ _).symm, Or.inr ⟨hc, w, s₁, rfl, hw, h₁⟩, ?_⟩
        rwa [getLast?_append_or]
    · rintro ⟨s₁, s₂, rfl, (⟨hc, t, s₁, rfl, ht, h₁⟩ | ⟨hc, w, s₁, rfl, hw, h₁⟩), h₂⟩
      · have hlast := getLast?_append_or [t] s₁ before
        rw [List.singleton_append] at hlast
        rw [hlast] at h₂
        exact Or.inl ⟨hc, t, s₁ ++ s₂, rfl, ht, ih.mpr ⟨s₁, s₂, rfl, h₁, h₂⟩⟩
      · rw [getLast?_append_or] at h₂
        exact Or.inr ⟨hc, w, s₁ ++ s₂, List.append_assoc _ _ _, hw, ih.mpr ⟨s₁, s₂, rfl, h₁, h₂⟩⟩

/-- A pattern that ends with a character or a single wildcard. -/
theorem matchesIf_snoc {c : α} (hc : c ≠ run) : MatchesIf one run R before (pattern ++ [c]) text ↔
    ∃ s t, text = s ++ [t] ∧ (c = t ∨ c = one) ∧ MatchesIf one run R before pattern s := by
  rw [matchesIf_append]
  constructor
  · rintro ⟨s₁, s₂, rfl, h₁, (⟨-, t, rest, rfl, ht, rfl⟩ | ⟨hrun, -⟩)⟩
    · exact ⟨s₁, t, rfl, ht, h₁⟩
    · exact absurd hrun hc
  · rintro ⟨s, t, rfl, ht, h⟩
    exact ⟨s, [t], rfl, h, Or.inl ⟨hc, t, [], rfl, ht, rfl⟩⟩

/-- A pattern that ends with a wildcard for a run. -/
theorem matchesIf_snoc_run : MatchesIf one run R before (pattern ++ [run]) text ↔
    ∃ s w, text = s ++ w ∧ R (s.getLast?.or before) w ∧ MatchesIf one run R before pattern s := by
  rw [matchesIf_append]
  constructor
  · rintro ⟨s₁, s₂, rfl, h₁, (⟨hrun, -⟩ | ⟨-, w, rest, rfl, hw, rfl⟩)⟩
    · exact absurd rfl hrun
    · exact ⟨s₁, w, by rw [List.append_nil], hw, h₁⟩
  · rintro ⟨s, w, rfl, hw, h⟩
    exact ⟨s, w, rfl, h, Or.inr ⟨rfl, w, [], (List.append_nil w).symm, hw, rfl⟩⟩

/-! ## Without a condition on the runs -/

/-- The character in front of the text does not matter. -/
theorem matchesIf_true {before' : Option α} (h : MatchesIf one run (fun _ _ => True) before pattern text) :
    MatchesIf one run (fun _ _ => True) before' pattern text := by
  induction pattern generalizing text before before' with
  | nil => exact h
  | cons c pattern ih =>
    rcases h with ⟨hc, t, rest, htext, ht, h⟩ | ⟨hc, w, rest, htext, hw, h⟩
    · exact Or.inl ⟨hc, t, rest, htext, ht, h⟩
    · exact Or.inr ⟨hc, w, rest, htext, hw, ih h⟩

theorem matches_cons {c : α} (hc : c ≠ run) : Matches one run (c :: pattern) text ↔
    ∃ t rest, text = t :: rest ∧ (c = t ∨ c = one) ∧ Matches one run pattern rest := by
  constructor
  · rintro (⟨-, t, rest, htext, ht, h⟩ | ⟨hrun, -⟩)
    · exact ⟨t, rest, htext, ht, matchesIf_true h⟩
    · exact absurd hrun hc
  · rintro ⟨t, rest, htext, ht, h⟩
    exact Or.inl ⟨hc, t, rest, htext, ht, matchesIf_true h⟩

/-- The rest of the pattern matches the text behind the run. -/
theorem matches_cons_run : Matches one run (run :: pattern) text ↔
    ∃ rest ∈ text.tails, Matches one run pattern rest := by
  constructor
  · rintro (⟨hrun, -⟩ | ⟨-, w, rest, rfl, -, h⟩)
    · exact absurd rfl hrun
    · exact ⟨rest, (List.mem_tails _ _).mpr (List.suffix_append w rest), matchesIf_true h⟩
  · rintro ⟨rest, hrest, h⟩
    obtain ⟨w, rfl⟩ := (List.mem_tails _ _).mp hrest
    exact Or.inr ⟨rfl, w, rest, rfl, trivial, matchesIf_true h⟩

instance decidableMatches [DecidableEq α] :
    (pattern text : List α) → Decidable (Matches one run pattern text)
  | [], text => inferInstanceAs (Decidable (text = []))
  | c :: pattern, text =>
    have : DecidablePred (Matches one run pattern) := decidableMatches pattern
    if hc : c = run then
      decidable_of_iff (∃ rest ∈ text.tails, Matches one run pattern rest) (hc ▸ matches_cons_run.symm)
    else
      match text with
      | [] => isFalse fun h => by
        obtain ⟨t, rest, htext, -⟩ := (matches_cons hc).mp h
        cases htext
      | t :: rest =>
        decidable_of_iff ((c = t ∨ c = one) ∧ Matches one run pattern rest) <| by
          rw [matches_cons hc]
          constructor
          · rintro ⟨ht, h⟩
            exact ⟨t, rest, rfl, ht, h⟩
          · rintro ⟨u, rest', htext, ht, h⟩
            obtain ⟨rfl, rfl⟩ := List.cons.inj htext
            exact ⟨ht, h⟩

end Miniob.Common
