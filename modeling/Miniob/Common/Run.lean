/-
  Runs of machines, for any state, operation and result types.

  * A fallible machine answers an operation with a result and a new state, or with a fault.
    `runOps` applies a list of operations; an invariant that every operation keeps makes the
    whole run succeed (`runOps_invariant`), and a simulation of a specification makes it a run of
    the specification, results included (`runOps_refines`).
  * `Agree` compares two computations: they fail alike or have related results.
  * Where each operation is admitted only in some states, `Reachable` collects the states that runs
    of admitted operations lead to; `Reachable.invariant` is the induction over it.
-/

namespace Miniob.Common

/-! ## Results of a fallible computation -/

section Returns

variable {F α β : Type} {P : α → Prop} {Q : β → Prop}

/-- Every result of `x` satisfies `P`; `x` may also fault. -/
def Returns (x : Except F α) (P : α → Prop) : Prop := ∀ a, x = .ok a → P a

theorem Returns.ok {a : α} (h : P a) : Returns (.ok a : Except F α) P := by
  intro b hb
  obtain rfl := Except.ok.inj hb
  exact h

theorem Returns.error {f : F} : Returns (.error f : Except F α) P := nofun

theorem Returns.bind {x : Except F α} {f : α → Except F β} (hx : Returns x P)
    (hf : ∀ a, P a → Returns (f a) Q) : Returns (x >>= f) Q := by
  intro b hb
  cases x with
  | error e => cases hb
  | ok a => exact hf a (hx a rfl) b hb

end Returns

/-- A first step that succeeds. -/
theorem bind_ok {F α β : Type} {x : Except F α} {a : α} (f : α → Except F β) (h : x = .ok a) :
    (x >>= f) = f a := by
  rw [h]
  rfl

/-- A sequence that succeeds, taken apart. -/
theorem ok_of_bind {F α β : Type} {x : Except F α} {f : α → Except F β} {b : β}
    (h : (x >>= f) = .ok b) : ∃ a, x = .ok a ∧ f a = .ok b := by
  cases x with
  | error e => cases h
  | ok a => exact ⟨a, rfl, h⟩

/-- A sequence that fails does so in its first part or behind it. -/
theorem error_of_bind {F α β : Type} {x : Except F α} {f : α → Except F β} {e : F}
    (h : (x >>= f) = .error e) : x = .error e ∨ ∃ a, x = .ok a ∧ f a = .error e := by
  cases x with
  | error e' => exact Or.inl (congrArg _ (Except.error.inj h))
  | ok a => exact Or.inr ⟨a, rfl, h⟩

/-- A result does not depend on how a failure is called. -/
theorem ok_of_mapError {E F α : Type} {x : Except E α} {f : E → F} {a : α} (h : x.mapError f = .ok a) : x = .ok a := by
  cases x with
  | error e => cases h
  | ok b =>
    obtain rfl := Except.ok.inj h
    rfl

/-- Two computations fail alike, or have results that are related. -/
inductive Agree {F α : Type} (R : α → α → Prop) : Except F α → Except F α → Prop where
  | error (f : F) : Agree R (.error f) (.error f)
  | ok {a a' : α} : R a a' → Agree R (.ok a) (.ok a')

theorem Agree.same {F α : Type} (x : Except F α) : Agree (fun a a' => a = a' ∧ x = .ok a) x x := by
  cases x with
  | error e => exact .error e
  | ok a => exact .ok ⟨rfl, rfl⟩

theorem Agree.bind {F α β : Type} {R : α → α → Prop} {Q : β → β → Prop} {x x' : Except F α}
    {f f' : α → Except F β} (hx : Agree R x x') (hf : ∀ a a', R a a' → Agree Q (f a) (f' a')) :
    Agree Q (x >>= f) (x' >>= f') := by
  cases hx with
  | error e => exact .error e
  | ok h => exact hf _ _ h

/-- Where the first result says what the second is. -/
theorem Agree.eq_map {F α : Type} {R : α → α → Prop} {x x' : Except F α} {g : α → α}
    (hx : Agree R x x') (hg : ∀ a a', R a a' → a' = g a) : x' = x.map g := by
  cases hx with
  | error e => rfl
  | ok h => exact congrArg Except.ok (hg _ _ h)

/-- What is the same for related results is the same for the computations. -/
theorem Agree.map_eq {F α β : Type} {R : α → α → Prop} {x x' : Except F α} {g : α → β}
    (hx : Agree R x x') (hg : ∀ a a', R a a' → g a = g a') : x.map g = x'.map g := by
  cases hx with
  | error e => rfl
  | ok h => exact congrArg Except.ok (hg _ _ h)

/-! ## Fallible machines -/

section Fallible

variable {S A O R F : Type}

/-- Apply the operations one after the other and collect their results. -/
def runOps (step : S → O → Except F (R × S)) : S → List O → Except F (List R × S)
  | s, [] => .ok ([], s)
  | s, o :: os => do
    let (r, s) ← step s o
    let (rs, s) ← runOps step s os
    return (r :: rs, s)

/-- A run of a specification: each operation answers and moves on as `spec` allows. -/
inductive SpecRun (spec : A → O → R → A → Prop) : A → List O → List R → A → Prop where
  | nil (a : A) : SpecRun spec a [] [] a
  | cons {a a' a'' : A} {o : O} {os : List O} {r : R} {rs : List R} :
      spec a o r a' → SpecRun spec a' os rs a'' → SpecRun spec a (o :: os) (r :: rs) a''

variable {step : S → O → Except F (R × S)}

theorem runOps_cons_ok {s s' s'' : S} {o : O} {os : List O} {r : R} {rs : List R}
    (h : step s o = .ok (r, s')) (hs : runOps step s' os = .ok (rs, s'')) :
    runOps step s (o :: os) = .ok (r :: rs, s'') := by
  rw [runOps, h]
  change (do
    let (rs, s) ← runOps step s' os
    return (r :: rs, s)) = _
  rw [hs]
  rfl

/-- A run that succeeds ends with a step from a state that the run before it reaches. -/
theorem runOps_cons_inv {s s'' : S} {o : O} {os : List O} {rs : List R}
    (h : runOps step s (o :: os) = .ok (rs, s'')) :
    ∃ r s' rs', step s o = .ok (r, s') ∧ runOps step s' os = .ok (rs', s'') ∧ rs = r :: rs' := by
  rw [runOps] at h
  cases hs : step s o with
  | error f => rw [hs] at h; cases h
  | ok out =>
    rw [hs] at h
    change (do
      let (rs, s) ← runOps step out.2 os
      return (out.1 :: rs, s)) = _ at h
    cases hr : runOps step out.2 os with
    | error f => rw [hr] at h; cases h
    | ok out' =>
      rw [hr] at h
      obtain ⟨rfl, rfl⟩ := Prod.mk.inj (Except.ok.inj h)
      exact ⟨out.1, out.2, out'.1, rfl, hr, rfl⟩

/-- **Invariant rule.**  If every admitted operation succeeds and keeps the invariant, so does a
    run of admitted operations. -/
theorem runOps_invariant {I : S → Prop} {ok : O → Prop}
    (hstep : ∀ s o, I s → ok o → ∃ r s', step s o = .ok (r, s') ∧ I s') :
    ∀ {os : List O} {s : S}, I s → (∀ o ∈ os, ok o) →
      ∃ rs s', runOps step s os = .ok (rs, s') ∧ I s'
  | [], s, hs, _ => ⟨[], s, rfl, hs⟩
  | o :: os, s, hs, hok => by
    obtain ⟨r, s₁, h₁, hs₁⟩ := hstep s o hs (hok o (by simp))
    have hok' : ∀ o' ∈ os, ok o' := fun o' ho' => hok o' (List.mem_cons_of_mem o ho')
    obtain ⟨rs, s₂, h₂, hs₂⟩ := runOps_invariant hstep hs₁ hok'
    exact ⟨r :: rs, s₂, runOps_cons_ok h₁ h₂, hs₂⟩

/-- The same where an operation may fault: what the states a run does reach have in common. -/
theorem runOps_preserves {I : S → Prop}
    (hstep : ∀ s o r s', I s → step s o = .ok (r, s') → I s') :
    ∀ {os : List O} {s s' : S} {rs : List R}, I s → runOps step s os = .ok (rs, s') → I s'
  | [], s, s', rs, hs, h => by
    obtain ⟨-, rfl⟩ := Prod.mk.inj (Except.ok.inj h)
    exact hs
  | o :: os, s, s', rs, hs, h => by
    obtain ⟨r, s₁, rs', h₁, h₂, -⟩ := runOps_cons_inv h
    exact runOps_preserves hstep (hstep s o r s₁ hs h₁) h₂

/-- **Simulation rule.**  If every operation succeeds, answers as the specification allows and keeps
    the relation between the two states, so does every run. -/
theorem runOps_refines {spec : A → O → R → A → Prop} {Rel : S → A → Prop}
    (hstep : ∀ s a o, Rel s a → ∃ r s' a', step s o = .ok (r, s') ∧ spec a o r a' ∧ Rel s' a') :
    ∀ (os : List O) {s : S} {a : A}, Rel s a →
      ∃ rs s' a', runOps step s os = .ok (rs, s') ∧ SpecRun spec a os rs a' ∧ Rel s' a'
  | [], s, a, h => ⟨[], s, a, rfl, .nil a, h⟩
  | o :: os, s, a, h => by
    obtain ⟨r, s₁, a₁, h₁, hspec₁, hrel₁⟩ := hstep s a o h
    obtain ⟨rs, s₂, a₂, h₂, hspec₂, hrel₂⟩ := runOps_refines hstep os hrel₁
    exact ⟨r :: rs, s₂, a₂, runOps_cons_ok h₁ h₂, .cons hspec₁ hspec₂, hrel₂⟩

/-- The states that runs of operations admitted by `ok` lead to from `s₀`. -/
inductive Reachable (step : S → O → Except F (R × S)) (ok : S → O → Prop) (s₀ : S) : S → Prop where
  | init : Reachable step ok s₀ s₀
  | step {s s' : S} {o : O} {r : R} : Reachable step ok s₀ s → ok s o → step s o = .ok (r, s') →
      Reachable step ok s₀ s'

/-- **Invariant rule** for reachable states. -/
theorem Reachable.invariant {ok : S → O → Prop} {s₀ s : S} {I : S → Prop} (hinit : I s₀)
    (hstep : ∀ s o r s', I s → ok s o → step s o = .ok (r, s') → I s')
    (h : Reachable step ok s₀ s) : I s := by
  induction h with
  | init => exact hinit
  | step _ hok hs ih => exact hstep _ _ _ _ ih hok hs

/-- Fewer admitted operations reach fewer states. -/
theorem Reachable.mono {ok ok' : S → O → Prop} {s₀ s : S} (himp : ∀ s o, ok s o → ok' s o)
    (h : Reachable step ok s₀ s) : Reachable step ok' s₀ s := by
  induction h with
  | init => exact .init
  | step _ hok hs ih => exact .step ih (himp _ _ hok) hs

/-- One more step, of a given operation. -/
theorem Reachable.next {ok : S → O → Prop} {s₀ s s' : S} {r : R} (h : Reachable step ok s₀ s) (o : O)
    (hok : ok s o) (hs : step s o = .ok (r, s')) : Reachable step ok s₀ s' :=
  .step h hok hs

/-- A successful run leads to a reachable state. -/
theorem Reachable.of_runOps {s₀ : S} :
    ∀ {os : List O} {s s' : S} {rs : List R}, Reachable step (fun _ _ => True) s₀ s →
      runOps step s os = .ok (rs, s') → Reachable step (fun _ _ => True) s₀ s'
  | [], s, s', rs, hs, h => by
    obtain ⟨-, rfl⟩ := Prod.mk.inj (Except.ok.inj h)
    exact hs
  | o :: os, s, s', rs, hs, h => by
    obtain ⟨r, s₁, rs', h₁, h₂, -⟩ := runOps_cons_inv h
    exact Reachable.of_runOps (.step hs trivial h₁) h₂

end Fallible

end Miniob.Common
