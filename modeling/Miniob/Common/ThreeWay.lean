/-
  Three-way comparisons that answer with a number: below zero, zero, above zero.

  `Lawful cmp S` says that the comparison is a total preorder on `S`, and `Exact cmp S` that only equal
  values compare equal.  Comparisons are put together from others: an absent value first
  (`absentFirst`), one comparison after the other (`lexCmp`), and element by element (`listCmp`).  For
  each of them it is said on which sets it is lawful, in terms of its parts.
-/
import Mathlib.Data.Set.Prod
import Mathlib.Algebra.Order.Field.Basic
import Mathlib.Tactic.Linarith

namespace Miniob.Common

variable {α β : Type}

/-- The comparison is a total preorder on `S`, as a sorted container asks for it. -/
structure Lawful (cmp : α → α → Int) (S : Set α) : Prop where
  refl : ∀ a ∈ S, cmp a a = 0
  antisymm : ∀ a ∈ S, ∀ b ∈ S, cmp a b < 0 ↔ 0 < cmp b a
  trans : ∀ a ∈ S, ∀ b ∈ S, ∀ c ∈ S, cmp a b ≤ 0 → cmp b c ≤ 0 → cmp a c ≤ 0

def Exact (cmp : α → α → Int) (S : Set α) : Prop := ∀ a ∈ S, ∀ b ∈ S, cmp a b = 0 → a = b

namespace Lawful

variable {cmp : α → α → Int} {S : Set α}

theorem mono (h : Lawful cmp S) {T : Set α} (hT : T ⊆ S) : Lawful cmp T where
  refl a ha := h.refl a (hT ha)
  antisymm a ha b hb := h.antisymm a (hT ha) b (hT hb)
  trans a ha b hb c hc := h.trans a (hT ha) b (hT hb) c (hT hc)

theorem congr {cmp' : α → α → Int} (heq : ∀ a ∈ S, ∀ b ∈ S, cmp' a b = cmp a b) (h : Lawful cmp S) :
    Lawful cmp' S where
  refl a ha := by rw [heq a ha a ha, h.refl a ha]
  antisymm a ha b hb := by rw [heq a ha b hb, heq b hb a ha, h.antisymm a ha b hb]
  trans a ha b hb c hc := by
    rw [heq a ha b hb, heq b hb c hc, heq a ha c hc]
    exact h.trans a ha b hb c hc

theorem eq_zero_comm (h : Lawful cmp S) {a b : α} (ha : a ∈ S) (hb : b ∈ S) :
    cmp a b = 0 ↔ cmp b a = 0 := by
  have hab := h.antisymm a ha b hb
  have hba := h.antisymm b hb a ha
  omega

/-- A strict step and a step. -/
theorem lt_of_lt_of_le (h : Lawful cmp S) {a b c : α} (ha : a ∈ S) (hb : b ∈ S) (hc : c ∈ S)
    (hab : cmp a b < 0) (hbc : cmp b c ≤ 0) : cmp a c < 0 := by
  by_contra hge
  have hpos : 0 < cmp b a := (h.antisymm a ha b hb).mp hab
  have hca : cmp c a ≤ 0 := by
    have := h.antisymm a ha c hc
    omega
  have := h.trans b hb c hc a ha hbc hca
  omega

/-- Where one of two comparisons is strict, so is that of the ends. -/
theorem lt_of_le_of_lt (h : Lawful cmp S) {a b c : α} (ha : a ∈ S) (hb : b ∈ S) (hc : c ∈ S)
    (hab : cmp a b ≤ 0) (hbc : cmp b c < 0) : cmp a c < 0 := by
  by_contra hge
  have hpos : 0 < cmp c b := (h.antisymm b hb c hc).mp hbc
  have hca : cmp c a ≤ 0 := by
    have := h.antisymm a ha c hc
    omega
  have := h.trans c hc a ha b hb hca hab
  omega

theorem eq_trans (h : Lawful cmp S) {a b c : α} (ha : a ∈ S) (hb : b ∈ S) (hc : c ∈ S)
    (hab : cmp a b = 0) (hbc : cmp b c = 0) : cmp a c = 0 := by
  have hle := h.trans a ha b hb c hc (le_of_eq hab) (le_of_eq hbc)
  have hge := h.trans c hc b hb a ha (le_of_eq ((h.eq_zero_comm hb hc).mp hbc))
    (le_of_eq ((h.eq_zero_comm ha hb).mp hab))
  have := h.antisymm a ha c hc
  omega

end Lawful

/-- The values of a set, seen through a function. -/
theorem lawful_image_iff {cmp : β → β → Int} {f : α → β} {S : Set α} :
    Lawful cmp (f '' S) ↔ Lawful (fun a b => cmp (f a) (f b)) S := by
  constructor
  · intro h
    exact ⟨fun a ha => h.refl _ ⟨a, ha, rfl⟩, fun a ha b hb => h.antisymm _ ⟨a, ha, rfl⟩ _ ⟨b, hb, rfl⟩,
      fun a ha b hb c hc => h.trans _ ⟨a, ha, rfl⟩ _ ⟨b, hb, rfl⟩ _ ⟨c, hc, rfl⟩⟩
  · intro h
    refine ⟨?_, ?_, ?_⟩
    · rintro _ ⟨a, ha, rfl⟩
      exact h.refl a ha
    · rintro _ ⟨a, ha, rfl⟩ _ ⟨b, hb, rfl⟩
      exact h.antisymm a ha b hb
    · rintro _ ⟨a, ha, rfl⟩ _ ⟨b, hb, rfl⟩ _ ⟨c, hc, rfl⟩
      exact h.trans a ha b hb c hc

theorem exact_image_iff {cmp : β → β → Int} {f : α → β} {S : Set α} (hf : Function.Injective f) :
    Exact cmp (f '' S) ↔ Exact (fun a b => cmp (f a) (f b)) S := by
  constructor
  · intro h a ha b hb hab
    exact hf (h _ ⟨a, ha, rfl⟩ _ ⟨b, hb, rfl⟩ hab)
  · rintro h _ ⟨a, ha, rfl⟩ _ ⟨b, hb, rfl⟩ hab
    rw [h a ha b hb hab]

/-! ## Linear orders -/

section Linear

variable [LinearOrder α]

def linearCmp (a b : α) : Int := if a > b then 1 else if a < b then -1 else 0

theorem linearCmp_neg {a b : α} : linearCmp a b < 0 ↔ a < b := by
  unfold linearCmp
  rcases lt_trichotomy a b with h | h | h
  · simp [h, not_lt_of_gt h]
  · simp [h]
  · simp [h, not_lt_of_gt h]

theorem linearCmp_pos {a b : α} : 0 < linearCmp a b ↔ b < a := by
  unfold linearCmp
  rcases lt_trichotomy a b with h | h | h
  · simp [h, not_lt_of_gt h]
  · simp [h]
  · simp [h]

theorem linearCmp_nonpos {a b : α} : linearCmp a b ≤ 0 ↔ a ≤ b := by
  rw [← not_lt, linearCmp_pos, not_lt]

theorem lawful_linearCmp (S : Set α) : Lawful linearCmp S where
  refl a _ := by simp [linearCmp]
  antisymm a _ b _ := linearCmp_neg.trans linearCmp_pos.symm
  trans a _ b _ c _ hab hbc :=
    linearCmp_nonpos.mpr (le_trans (linearCmp_nonpos.mp hab) (linearCmp_nonpos.mp hbc))

/-- The comparison of a linear order tells all values apart. -/
theorem exact_linearCmp (S : Set α) : Exact linearCmp S := by
  intro a _ b _ h
  have hle : a ≤ b := linearCmp_nonpos.mp (by omega)
  have hge : ¬ a < b := fun hlt => by
    have := linearCmp_neg.mpr hlt
    omega
  exact le_antisymm hle (not_lt.mp hge)

end Linear

/-! ## With a tolerance -/

section Tolerance

variable [Field α] [LinearOrder α] [IsStrictOrderedRing α] {ε : α}

/-- The comparison of numbers whose difference has to be more than `ε` to count. -/
def toleranceCmp (ε : α) (a b : α) : Int := if a - b > ε then 1 else if a - b < -ε then -1 else 0

/-- The tolerance does not tell the two apart. -/
def Close (ε : α) (a b : α) : Prop := a - b ≤ ε ∧ b - a ≤ ε

omit [IsStrictOrderedRing α] in
theorem Close.symm {a b : α} (h : Close ε a b) : Close ε b a := ⟨h.2, h.1⟩

omit [IsStrictOrderedRing α] in
theorem toleranceCmp_pos {a b : α} : 0 < toleranceCmp ε a b ↔ ε < a - b := by
  unfold toleranceCmp
  by_cases h : a - b > ε
  · simp [h]
  · by_cases h' : a - b < -ε <;> simp [h, h']

omit [IsStrictOrderedRing α] in
theorem toleranceCmp_nonpos {a b : α} : toleranceCmp ε a b ≤ 0 ↔ a - b ≤ ε := by
  rw [← not_lt, toleranceCmp_pos, not_lt]

variable (hε : 0 ≤ ε)
include hε

/-- Less is less by more than the tolerance. -/
theorem toleranceCmp_neg {a b : α} : toleranceCmp ε a b < 0 ↔ ε < b - a := by
  unfold toleranceCmp
  by_cases h : a - b > ε
  · have : ¬ ε < b - a := by
      intro h'
      linarith
    simp [h, this]
  · by_cases h' : a - b < -ε
    · have : ε < b - a := by linarith
      simp [h, h', this]
    · have : ¬ ε < b - a := fun hlt => h' (by linarith)
      simp [h, h', this]

theorem toleranceCmp_eq_zero {a b : α} : toleranceCmp ε a b = 0 ↔ Close ε a b := by
  have hpos : 0 < toleranceCmp ε a b ↔ ε < a - b := toleranceCmp_pos
  have hneg : toleranceCmp ε a b < 0 ↔ ε < b - a := toleranceCmp_neg hε
  unfold Close
  rw [← not_lt, ← not_lt, ← hpos, ← hneg]
  omega

/-- **The tolerance gives an order** exactly where being close is transitive. -/
theorem lawful_toleranceCmp_iff (S : Set α) : Lawful (toleranceCmp ε) S ↔
    ∀ a ∈ S, ∀ b ∈ S, ∀ c ∈ S, Close ε a b → Close ε b c → Close ε a c := by
  constructor
  · intro h a ha b hb c hc hab hbc
    have hzero : ∀ {x y : α}, Close ε x y → toleranceCmp ε x y ≤ 0 := fun hxy =>
      le_of_eq ((toleranceCmp_eq_zero hε).mpr hxy)
    have hac := h.trans a ha b hb c hc (hzero hab) (hzero hbc)
    have hca := h.trans c hc b hb a ha (hzero hbc.symm) (hzero hab.symm)
    exact ⟨(toleranceCmp_nonpos).mp hac, (toleranceCmp_nonpos).mp hca⟩
  · intro h
    refine ⟨?_, ?_, ?_⟩
    · intro a _
      exact (toleranceCmp_eq_zero hε).mpr ⟨by linarith, by linarith⟩
    · intro a _ b _
      rw [toleranceCmp_neg hε, toleranceCmp_pos]
    · intro a ha b hb c hc hab hbc
      rw [toleranceCmp_nonpos] at hab hbc ⊢
      by_contra hac
      -- a is far above c, so that b is close to one of the two, and then to both
      have hcb : Close ε a b := ⟨hab, by linarith⟩
      have hbc' : Close ε b c := ⟨hbc, by linarith⟩
      exact hac (h a ha b hb c hc hcb hbc').1

/-- With a tolerance it tells values apart exactly where no two are close. -/
theorem exact_toleranceCmp_iff (S : Set α) :
    Exact (toleranceCmp ε) S ↔ ∀ a ∈ S, ∀ b ∈ S, Close ε a b → a = b := by
  unfold Exact
  constructor
  · intro h a ha b hb hab
    exact h a ha b hb ((toleranceCmp_eq_zero hε).mpr hab)
  · intro h a ha b hb hab
    exact h a ha b hb ((toleranceCmp_eq_zero hε).mp hab)

end Tolerance

/-! ## Absent values -/

/-- An absent value is below everything, whatever it is compared with. -/
def absentFirst (absent : α → Bool) (cmp : α → α → Int) (a b : α) : Int :=
  if absent a then -1 else if absent b then 1 else cmp a b

/-- An absent value is equal to nothing, not even to itself. -/
theorem absentFirst_ne_zero {absent : α → Bool} {cmp : α → α → Int} {a b : α}
    (h : absent a = true ∨ absent b = true) : absentFirst absent cmp a b ≠ 0 := by
  unfold absentFirst
  rcases h with h | h
  · rw [if_pos h]
    decide
  · rw [if_pos h]
    split <;> decide

/-- **An absent value is not equal to itself.** -/
theorem lawful_absentFirst_iff {absent : α → Bool} {cmp : α → α → Int} {S : Set α} :
    Lawful (absentFirst absent cmp) S ↔ (∀ a ∈ S, absent a = false) ∧ Lawful cmp S := by
  constructor
  · intro h
    have hno : ∀ a ∈ S, absent a = false := by
      intro a ha
      by_contra habs
      have hself := h.refl a ha
      unfold absentFirst at hself
      rw [if_pos (by simpa using habs)] at hself
      omega
    refine ⟨hno, Lawful.congr (fun a ha b hb => ?_) h⟩
    unfold absentFirst
    simp [hno a ha, hno b hb]
  · rintro ⟨hno, h⟩
    refine Lawful.congr (fun a ha b hb => ?_) h
    unfold absentFirst
    simp [hno a ha, hno b hb]

/-- So absent values are no harm to exactness; they are to the order. -/
theorem exact_absentFirst {absent : α → Bool} {cmp : α → α → Int} {S : Set α} (h : Exact cmp S) :
    Exact (absentFirst absent cmp) S := by
  intro a ha b hb hab
  unfold absentFirst at hab
  split at hab
  · omega
  · split at hab
    · omega
    · exact h a ha b hb hab

theorem exact_of_absentFirst {absent : α → Bool} {cmp : α → α → Int} {S : Set α}
    (hno : ∀ a ∈ S, absent a = false) (h : Exact (absentFirst absent cmp) S) : Exact cmp S := by
  intro a ha b hb hab
  refine h a ha b hb ?_
  unfold absentFirst
  simp [hno a ha, hno b hb, hab]

/-! ## One after the other -/

section Lex

variable {c₁ : α → α → Int} {c₂ : β → β → Int} {S : Set α} {T : Set β}

def lexCmp (c₁ : α → α → Int) (c₂ : β → β → Int) (a b : α × β) : Int :=
  if c₁ a.1 b.1 ≠ 0 then c₁ a.1 b.1 else c₂ a.2 b.2

theorem lexCmp_of_ne {a b : α × β} (h : c₁ a.1 b.1 ≠ 0) : lexCmp c₁ c₂ a b = c₁ a.1 b.1 := if_pos h

theorem lexCmp_of_eq {a b : α × β} (h : c₁ a.1 b.1 = 0) : lexCmp c₁ c₂ a b = c₂ a.2 b.2 :=
  if_neg (not_not.mpr h)

/-- Pairs compare equal if both components do. -/
theorem lexCmp_eq_zero {a b : α × β} :
    lexCmp c₁ c₂ a b = 0 ↔ c₁ a.1 b.1 = 0 ∧ c₂ a.2 b.2 = 0 := by
  unfold lexCmp
  split
  · rename_i h
    exact ⟨fun h' => absurd h' h, fun h' => h'.1⟩
  · rename_i h
    exact ⟨fun h' => ⟨not_not.mp h, h'⟩, fun h' => h'.2⟩

theorem lexCmp_nonpos {a b : α × β} :
    lexCmp c₁ c₂ a b ≤ 0 ↔ c₁ a.1 b.1 < 0 ∨ c₁ a.1 b.1 = 0 ∧ c₂ a.2 b.2 ≤ 0 := by
  unfold lexCmp
  split <;> omega

/-- The lexicographic comparison of two lawful ones is lawful. -/
theorem Lawful.lex (h₁ : Lawful c₁ S) (h₂ : Lawful c₂ T) : Lawful (lexCmp c₁ c₂) (S ×ˢ T) := by
  refine ⟨?_, ?_, ?_⟩
  · rintro a ⟨ha, ha'⟩
    exact lexCmp_eq_zero.mpr ⟨h₁.refl a.1 ha, h₂.refl a.2 ha'⟩
  · rintro a ⟨ha, ha'⟩ b ⟨hb, hb'⟩
    have h := h₁.antisymm a.1 ha b.1 hb
    have h' := h₁.antisymm b.1 hb a.1 ha
    have h₂' := h₂.antisymm a.2 ha' b.2 hb'
    unfold lexCmp
    split <;> split <;> omega
  · rintro a ⟨ha, ha'⟩ b ⟨hb, hb'⟩ c ⟨hc, hc'⟩ hab hbc
    rw [lexCmp_nonpos] at hab hbc ⊢
    rcases hab with hab | ⟨hab, hab'⟩
    · refine Or.inl (h₁.lt_of_lt_of_le ha hb hc hab ?_)
      rcases hbc with hbc | ⟨hbc, -⟩ <;> omega
    · rcases hbc with hbc | ⟨hbc, hbc'⟩
      · exact Or.inl (h₁.lt_of_le_of_lt ha hb hc (le_of_eq hab) hbc)
      · exact Or.inr ⟨h₁.eq_trans ha hb hc hab hbc, h₂.trans _ ha' _ hb' _ hc' hab' hbc'⟩

/-- **Component by component.** -/
theorem lawful_lex_iff (hS : S.Nonempty) (hT : T.Nonempty) :
    Lawful (lexCmp c₁ c₂) (S ×ˢ T) ↔ Lawful c₁ S ∧ Lawful c₂ T := by
  constructor
  · intro h
    obtain ⟨a₀, ha₀⟩ := hS
    obtain ⟨t₀, ht₀⟩ := hT
    -- with the other component held fixed, the comparison is the one of the component
    have hself : ∀ a ∈ S, ∀ t ∈ T, c₁ a a = 0 ∧ c₂ t t = 0 := fun a ha t ht =>
      lexCmp_eq_zero.mp (h.refl (a, t) ⟨ha, ht⟩)
    have hfst : ∀ a b, lexCmp c₁ c₂ (a, t₀) (b, t₀) = c₁ a b := by
      intro a b
      unfold lexCmp
      dsimp only
      rw [(hself a₀ ha₀ t₀ ht₀).2]
      split
      · rfl
      · rename_i hz
        exact (not_not.mp hz).symm
    have hsnd : ∀ s t, lexCmp c₁ c₂ (a₀, s) (a₀, t) = c₂ s t := fun s t =>
      lexCmp_of_eq (hself a₀ ha₀ t₀ ht₀).1
    constructor
    · refine ⟨fun a ha => (hself a ha t₀ ht₀).1, fun a ha b hb => ?_, fun a ha b hb c hc => ?_⟩
      · rw [← hfst a b, ← hfst b a]
        exact h.antisymm _ ⟨ha, ht₀⟩ _ ⟨hb, ht₀⟩
      · rw [← hfst a b, ← hfst b c, ← hfst a c]
        exact h.trans _ ⟨ha, ht₀⟩ _ ⟨hb, ht₀⟩ _ ⟨hc, ht₀⟩
    · refine ⟨fun t ht => (hself a₀ ha₀ t ht).2, fun a ha b hb => ?_, fun a ha b hb c hc => ?_⟩
      · rw [← hsnd a b, ← hsnd b a]
        exact h.antisymm _ ⟨ha₀, ha⟩ _ ⟨ha₀, hb⟩
      · rw [← hsnd a b, ← hsnd b c, ← hsnd a c]
        exact h.trans _ ⟨ha₀, ha⟩ _ ⟨ha₀, hb⟩ _ ⟨ha₀, hc⟩
  · rintro ⟨h₁, h₂⟩
    exact h₁.lex h₂

/-- It tells pairs apart if both components are told apart, unless there is no pair. -/
theorem exact_lex_iff (h₁ : Lawful c₁ S) (h₂ : Lawful c₂ T) (hS : S.Nonempty) (hT : T.Nonempty) :
    Exact (lexCmp c₁ c₂) (S ×ˢ T) ↔ Exact c₁ S ∧ Exact c₂ T := by
  obtain ⟨a₀, ha₀⟩ := hS
  obtain ⟨t₀, ht₀⟩ := hT
  constructor
  · intro h
    constructor
    · intro a ha b hb hab
      exact (Prod.mk.inj (h (a, t₀) ⟨ha, ht₀⟩ (b, t₀) ⟨hb, ht₀⟩
        (lexCmp_eq_zero.mpr ⟨hab, h₂.refl t₀ ht₀⟩))).1
    · intro s hs t ht hst
      exact (Prod.mk.inj (h (a₀, s) ⟨ha₀, hs⟩ (a₀, t) ⟨ha₀, ht⟩
        (lexCmp_eq_zero.mpr ⟨h₁.refl a₀ ha₀, hst⟩))).2
  · rintro ⟨he₁, he₂⟩ a ⟨ha, ha'⟩ b ⟨hb, hb'⟩ hab
    obtain ⟨h, h'⟩ := lexCmp_eq_zero.mp hab
    exact Prod.ext (he₁ a.1 ha b.1 hb h) (he₂ a.2 ha' b.2 hb' h')

end Lex

/-! ## Element by element -/

section Lists

variable {cmp : α → α → Int}

/-- The first difference decides; where there is none, the shorter list comes first. -/
def listCmp (cmp : α → α → Int) : List α → List α → Int
  | [], [] => 0
  | [], _ :: _ => -1
  | _ :: _, [] => 1
  | a :: as, b :: bs => if cmp a b ≠ 0 then cmp a b else listCmp cmp as bs

theorem listCmp_cons (a b : α) (as bs : List α) :
    listCmp cmp (a :: as) (b :: bs) = lexCmp cmp (listCmp cmp) (a, as) (b, bs) := rfl

theorem listCmp_self (h : Lawful cmp Set.univ) (as : List α) : listCmp cmp as as = 0 := by
  induction as with
  | nil => rfl
  | cons a as ih =>
    rw [listCmp_cons]
    exact lexCmp_eq_zero.mpr ⟨h.refl a trivial, ih⟩

/-- The induction is on both lists: the first elements that differ decide. -/
theorem listCmp_antisymm (h : Lawful cmp Set.univ) (as bs : List α) :
    listCmp cmp as bs < 0 ↔ 0 < listCmp cmp bs as := by
  induction as generalizing bs with
  | nil => cases bs <;> simp [listCmp]
  | cons a as ih =>
    cases bs with
    | nil => simp [listCmp]
    | cons b bs =>
      have hab := h.antisymm a trivial b trivial
      have hba := h.antisymm b trivial a trivial
      have hrest := ih bs
      unfold listCmp
      split <;> split <;> omega

/-- Where two lists are equal so far, their rests decide. -/
theorem listCmp_trans (h : Lawful cmp Set.univ) (as bs cs : List α) (hab : listCmp cmp as bs ≤ 0)
    (hbc : listCmp cmp bs cs ≤ 0) : listCmp cmp as cs ≤ 0 := by
  induction as generalizing bs cs with
  | nil => cases cs <;> simp [listCmp]
  | cons a as ih =>
    cases bs with
    | nil => simp [listCmp] at hab
    | cons b bs =>
      cases cs with
      | nil => simp [listCmp] at hbc
      | cons c cs =>
        rw [listCmp_cons, lexCmp_nonpos] at hab hbc ⊢
        rcases hab with hab | ⟨hab, hab'⟩
        · refine Or.inl (h.lt_of_lt_of_le trivial trivial trivial hab ?_)
          rcases hbc with hbc | ⟨hbc, -⟩ <;> omega
        · rcases hbc with hbc | ⟨hbc, hbc'⟩
          · exact Or.inl (h.lt_of_le_of_lt trivial trivial trivial (le_of_eq hab) hbc)
          · exact Or.inr ⟨h.eq_trans trivial trivial trivial hab hbc, ih bs cs hab' hbc'⟩

theorem lawful_listCmp (h : Lawful cmp Set.univ) (S : Set (List α)) : Lawful (listCmp cmp) S where
  refl as _ := listCmp_self h as
  antisymm as _ bs _ := listCmp_antisymm h as bs
  trans as _ bs _ cs _ := listCmp_trans h as bs cs

/-- Lists that compare equal have equal elements. -/
theorem eq_of_listCmp (h : Exact cmp Set.univ) {as bs : List α} (hab : listCmp cmp as bs = 0) :
    as = bs := by
  induction as generalizing bs with
  | nil =>
    cases bs with
    | nil => rfl
    | cons b bs => simp [listCmp] at hab
  | cons a as ih =>
    cases bs with
    | nil => simp [listCmp] at hab
    | cons b bs =>
      rw [listCmp_cons, lexCmp_eq_zero] at hab
      rw [h a trivial b trivial hab.1, ih hab.2]

/-- The lists with an element of each of the sets. -/
def listsOf : List (Set α) → Set (List α)
  | [] => {[]}
  | U :: Us => (fun p : α × List α => p.1 :: p.2) '' (U ×ˢ listsOf Us)

/-- If there is a value for each place, there is a list of them. -/
theorem listsOf_nonempty {Us : List (Set α)} (h : ∀ U ∈ Us, U.Nonempty) : (listsOf Us).Nonempty := by
  induction Us with
  | nil => exact ⟨[], rfl⟩
  | cons U Us ih =>
    obtain ⟨a, ha⟩ := h U (by simp)
    obtain ⟨as, has⟩ := ih fun V hV => h V (List.mem_cons_of_mem U hV)
    exact ⟨a :: as, (a, as), ⟨ha, has⟩, rfl⟩

/-- **Position by position.** -/
theorem lawful_listsOf_iff {Us : List (Set α)} (hne : ∀ U ∈ Us, U.Nonempty) :
    Lawful (listCmp cmp) (listsOf Us) ↔ ∀ U ∈ Us, Lawful cmp U := by
  induction Us with
  | nil =>
    refine ⟨fun _ U hU => (nomatch hU), fun _ => ⟨?_, ?_, ?_⟩⟩
    · rintro _ rfl
      rfl
    · rintro _ rfl _ rfl
      exact Iff.rfl
    · rintro _ rfl _ rfl _ rfl h _
      exact h
  | cons U Us ih =>
    have hUs : ∀ V ∈ Us, V.Nonempty := fun V hV => hne V (List.mem_cons_of_mem U hV)
    show Lawful _ (_ '' _) ↔ _
    rw [lawful_image_iff, List.forall_mem_cons, ← ih hUs]
    exact lawful_lex_iff (hne U (by simp)) (listsOf_nonempty hUs)

/-- One place at a time: exactness of the lists is exactness at each place. -/
theorem exact_listsOf_iff {Us : List (Set α)} (hne : ∀ U ∈ Us, U.Nonempty)
    (h : ∀ U ∈ Us, Lawful cmp U) :
    Exact (listCmp cmp) (listsOf Us) ↔ ∀ U ∈ Us, Exact cmp U := by
  induction Us with
  | nil =>
    refine ⟨fun _ U hU => (nomatch hU), fun _ => ?_⟩
    rintro _ rfl _ rfl _
    rfl
  | cons U Us ih =>
    have hUs : ∀ V ∈ Us, V.Nonempty := fun V hV => hne V (List.mem_cons_of_mem U hV)
    have hlaw : ∀ V ∈ Us, Lawful cmp V := fun V hV => h V (List.mem_cons_of_mem U hV)
    have hinj : Function.Injective fun p : α × List α => p.1 :: p.2 := by
      rintro ⟨a, as⟩ ⟨b, bs⟩ heq
      obtain ⟨rfl, rfl⟩ := List.cons.inj heq
      rfl
    show Exact _ (_ '' _) ↔ _
    rw [exact_image_iff hinj, List.forall_mem_cons, ← ih hUs hlaw]
    exact exact_lex_iff (h U (by simp)) ((lawful_listsOf_iff hUs).mpr hlaw) (hne U (by simp))
      (listsOf_nonempty hUs)

end Lists

/-! ## Sorting -/

/-- A strict weak order on the set: what a sorting algorithm asks of its comparison. -/
structure StrictWeak (lt : α → α → Bool) (S : Set α) : Prop where
  irrefl : ∀ a ∈ S, lt a a = false
  trans : ∀ a ∈ S, ∀ b ∈ S, ∀ c ∈ S, lt a b = true → lt b c = true → lt a c = true
  equiv_trans : ∀ a ∈ S, ∀ b ∈ S, ∀ c ∈ S, lt a b = false → lt b a = false → lt b c = false → lt c b = false →
    lt a c = false ∧ lt c a = false

section Sorting

variable {cmp : α → α → Int} {S : Set α}

/-- Being less is a strict weak order, as `std::sort` wants it. -/
theorem Lawful.strictWeak (h : Lawful cmp S) : StrictWeak (fun a b => decide (cmp a b < 0)) S := by
  refine ⟨?_, ?_, ?_⟩
  · intro a ha
    have := h.refl a ha
    exact decide_eq_false (by omega)
  · intro a ha b hb c hc hab hbc
    have hab' : cmp a b < 0 := of_decide_eq_true hab
    have hbc' : cmp b c < 0 := of_decide_eq_true hbc
    exact decide_eq_true (h.lt_of_lt_of_le ha hb hc hab' (by omega))
  · intro a ha b hb c hc hab hba hbc hcb
    -- neither below the other: they compare equal
    have hzero : ∀ x ∈ S, ∀ y ∈ S, decide (cmp x y < 0) = false → decide (cmp y x < 0) = false →
        cmp x y = 0 := by
      intro x hx y hy hxy hyx
      have hxy' : ¬ cmp x y < 0 := of_decide_eq_false hxy
      have hyx' : ¬ cmp y x < 0 := of_decide_eq_false hyx
      have := h.antisymm y hy x hx
      omega
    have hac := h.eq_trans ha hb hc (hzero a ha b hb hab hba) (hzero b hb c hc hbc hcb)
    have hca := (h.eq_zero_comm ha hc).mp hac
    exact ⟨decide_eq_false (by omega), decide_eq_false (by omega)⟩

/-- The other way round. -/
theorem Lawful.swap (h : Lawful cmp S) : Lawful (fun a b => cmp b a) S where
  refl a ha := h.refl a ha
  antisymm a ha b hb := h.antisymm b hb a ha
  trans a ha b hb c hc hab hbc := h.trans c hc b hb a ha hbc hab

/-- The first comparison that tells the two apart. -/
def firstCmp : List (α → α → Int) → α → α → Int
  | [], _, _ => 0
  | c :: cs, a, b => if c a b ≠ 0 then c a b else firstCmp cs a b

/-- The first comparison that is not zero decides. -/
theorem lawful_firstCmp {cs : List (α → α → Int)} (h : ∀ c ∈ cs, Lawful c S) : Lawful (firstCmp cs) S := by
  induction cs with
  | nil => exact ⟨fun _ _ => rfl, fun _ _ _ _ => Iff.rfl, fun _ _ _ _ _ _ _ _ => le_refl _⟩
  | cons c cs ih =>
    obtain ⟨hc, hcs⟩ := List.forall_mem_cons.mp h
    -- the lexicographic comparison of the pairs `(a, a)`
    have hlex := (hc.lex (ih hcs)).mono
      (show (fun a => (a, a)) '' S ⊆ S ×ˢ S by
        rintro _ ⟨a, ha, rfl⟩
        exact ⟨ha, ha⟩)
    exact (@lawful_image_iff α (α × α) (lexCmp c (firstCmp cs)) (fun a => (a, a)) S).mp hlex

/-- Nothing comes before everything, and is equal to itself. -/
def noneFirst (cmp : α → α → Int) : Option α → Option α → Int
  | none, none => 0
  | none, some _ => -1
  | some _, none => 1
  | some a, some b => cmp a b

/-- A missing value in front of all others is lawful, if two of them are equal. -/
theorem lawful_noneFirst (h : Lawful cmp Set.univ) (T : Set (Option α)) : Lawful (noneFirst cmp) T := by
  refine ⟨?_, ?_, ?_⟩
  · rintro (_ | a) _
    · rfl
    · exact h.refl a trivial
  · rintro (_ | a) _ (_ | b) _
    · exact Iff.rfl
    · exact iff_of_true (by decide : (-1 : Int) < 0) (by decide : (0 : Int) < 1)
    · exact iff_of_false (by decide : ¬ (1 : Int) < 0) (by decide : ¬ (0 : Int) < -1)
    · exact h.antisymm a trivial b trivial
  · rintro (_ | a) _ (_ | b) _ (_ | c) _ hab hbc
    · exact le_refl _
    · exact (by decide : (-1 : Int) ≤ 0)
    · exact le_refl _
    · exact (by decide : (-1 : Int) ≤ 0)
    · exact absurd hab (by decide : ¬ (1 : Int) ≤ 0)
    · exact absurd hab (by decide : ¬ (1 : Int) ≤ 0)
    · exact absurd hbc (by decide : ¬ (1 : Int) ≤ 0)
    · exact h.trans a trivial b trivial c trivial hab hbc

end Sorting

end Miniob.Common
