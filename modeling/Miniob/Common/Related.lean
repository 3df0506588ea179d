/-
  Two lists that are related element by element (`List.Forall₂`).

  Steps on the elements compose (`forall₂_comp`), and what the relation says of the second element holds of
  all of them (`forall₂_right`).  A fallible step relates what it is applied to with its results
  (`forall₂_of_mapM`).  A list that ends with `a` is related to one that ends likewise
  (`exists_of_forall₂_concat`).
-/
import Mathlib.Data.List.Forall2
import Miniob.Common.Run

namespace Miniob.Common

variable {A B C : Type} {P : A → B → Prop} {Q : B → C → Prop} {R : A → C → Prop}

/-- Two steps. -/
theorem forall₂_comp {as : List A} {bs : List B} {cs : List C} (h : List.Forall₂ P as bs)
    (h' : List.Forall₂ Q bs cs) (himp : ∀ a b c, P a b → Q b c → R a c) : List.Forall₂ R as cs := by
  induction h generalizing cs with
  | nil =>
    cases h'
    exact .nil
  | cons hab _ ih =>
    cases h' with
    | cons hbc hrest => exact .cons (himp _ _ _ hab hbc) (ih hrest)

/-- Every element of the second list has one of the first. -/
theorem exists_of_forall₂ {as : List A} {bs : List B} (h : List.Forall₂ P as bs) :
    ∀ b ∈ bs, ∃ a ∈ as, P a b := by
  induction h with
  | nil => exact List.forall_mem_nil _
  | cons hab _ ih =>
    intro b hb
    rcases List.mem_cons.mp hb with rfl | hb
    · exact ⟨_, List.mem_cons_self, hab⟩
    · obtain ⟨a, ha, hP⟩ := ih b hb
      exact ⟨a, List.mem_cons_of_mem _ ha, hP⟩

theorem forall₂_right {as : List A} {bs : List B} {S : B → Prop} (h : List.Forall₂ P as bs)
    (himp : ∀ a b, P a b → S b) : ∀ b ∈ bs, S b := by
  intro b hb
  obtain ⟨a, -, hP⟩ := exists_of_forall₂ h b hb
  exact himp a b hP

/-- The lists are as long, and what stands at one place is related. -/
theorem forall₂_iff_getElem? {as : List A} {bs : List B} : List.Forall₂ P as bs ↔
    as.length = bs.length ∧ ∀ (n : Nat) a b, as[n]? = some a → bs[n]? = some b → P a b := by
  rw [List.forall₂_iff_get]
  refine and_congr_right fun _ => ⟨fun h n a b ha hb => ?_, fun h n ha hb => ?_⟩
  · obtain ⟨hna, rfl⟩ := List.getElem?_eq_some_iff.mp ha
    obtain ⟨hnb, rfl⟩ := List.getElem?_eq_some_iff.mp hb
    exact h n hna hnb
  · exact h n _ _ (List.getElem?_eq_getElem ha) (List.getElem?_eq_getElem hb)

/-- Elements that all have a partner. -/
theorem forall₂_of_exists {as : List A} (h : ∀ a ∈ as, ∃ b, P a b) : ∃ bs, List.Forall₂ P as bs := by
  induction as with
  | nil => exact ⟨[], .nil⟩
  | cons a as ih =>
    obtain ⟨b, hb⟩ := h a List.mem_cons_self
    obtain ⟨bs, hbs⟩ := ih fun c hc => h c (List.mem_cons_of_mem _ hc)
    exact ⟨b :: bs, .cons hb hbs⟩

/-- What a fallible step gives for each element. -/
theorem forall₂_of_mapM {F : Type} {f : A → Except F B} {as : List A} {bs : List B} (h : as.mapM f = .ok bs) :
    List.Forall₂ (fun a b => f a = .ok b) as bs := by
  induction as generalizing bs with
  | nil =>
    cases h
    exact .nil
  | cons a as ih =>
    rw [List.mapM_cons] at h
    obtain ⟨b, hb, h⟩ := ok_of_bind h
    obtain ⟨rest, hrest, h⟩ := ok_of_bind h
    cases h
    exact .cons hb (ih hrest)

theorem mapM_eq_some_iff {f : A → Option B} {as : List A} {bs : List B} :
    as.mapM f = some bs ↔ List.Forall₂ (fun a b => f a = some b) as bs := by
  induction as generalizing bs with
  | nil => simp [eq_comm]
  | cons a as ih =>
    cases hf : f a with
    | none => simp [List.mapM_cons, hf, List.forall₂_cons_left_iff]
    | some b =>
      cases hfs : as.mapM f with
      | none =>
        have hnot : ∀ bs', ¬ List.Forall₂ (fun a b => f a = some b) as bs' := fun bs' hbs => by
          rw [ih.mpr hbs] at hfs
          cases hfs
        simp [List.mapM_cons, hf, hfs, List.forall₂_cons_left_iff, hnot]
      | some bs' =>
        have hbs' := ih.mp hfs
        have huniq : ∀ bs'', List.Forall₂ (fun a b => f a = some b) as bs'' → bs'' = bs' := fun bs'' hbs'' =>
          Option.some.inj ((ih.mpr hbs'').symm.trans hfs)
        constructor
        · intro h
          rw [List.mapM_cons, hf, hfs] at h
          rw [← Option.some.inj h]
          exact .cons hf hbs'
        · intro h
          obtain ⟨c, cs, hc, hcs, rfl⟩ := List.forall₂_cons_left_iff.mp h
          rw [List.mapM_cons, hf, hfs, huniq cs hcs, Option.some.inj (hf.symm.trans hc)]
          rfl

/-- The partner of the last element is last. -/
theorem exists_of_forall₂_concat {as : List A} {a : A} {bs : List B} (h : List.Forall₂ P (as ++ [a]) bs) :
    ∃ bs' b, bs = bs' ++ [b] ∧ List.Forall₂ P as bs' ∧ P a b := by
  induction as generalizing bs with
  | nil =>
    obtain ⟨b, rest, hab, hnil, rfl⟩ := List.forall₂_cons_left_iff.mp h
    obtain rfl := List.forall₂_nil_left_iff.mp hnil
    exact ⟨[], b, rfl, .nil, hab⟩
  | cons c as ih =>
    obtain ⟨d, rest, hcd, hrest, rfl⟩ := List.forall₂_cons_left_iff.mp h
    obtain ⟨bs', b, rfl, has, hab⟩ := ih hrest
    exact ⟨d :: bs', b, rfl, .cons hcd has, hab⟩

end Miniob.Common
