/-
  AND and OR that stop early.

  `shortCircuit stop` asks one part after the other and stops at the first that answers `stop` (false for AND,
  true for OR) or that fails.  Parts that answer the opposite are neutral: they can be left out
  (`shortCircuit_filter`).
-/
import Mathlib.Data.List.Basic
import Mathlib.Data.List.Forall2

namespace Miniob.Common

variable {ε : Type} {stop b : Bool} {x y : Except ε Bool} {xs ys : List (Except ε Bool)}

def shortCircuit (stop : Bool) : List (Except ε Bool) → Except ε Bool
  | [] => .ok !stop
  | .error e :: _ => .error e
  | .ok b :: xs => if b = stop then .ok b else shortCircuit stop xs

@[simp] theorem shortCircuit_nil : shortCircuit stop ([] : List (Except ε Bool)) = .ok !stop := rfl

@[simp] theorem shortCircuit_stop : shortCircuit stop (.ok stop :: xs) = .ok stop := if_pos rfl

@[simp] theorem shortCircuit_neutral : shortCircuit stop (.ok (!stop) :: xs) = shortCircuit stop xs :=
  if_neg (by simp)

theorem shortCircuit_singleton : shortCircuit stop [x] = x := by
  cases x with
  | error e => rfl
  | ok b =>
    by_cases h : b = stop
    · rw [h, shortCircuit_stop]
    · have hb : b = !stop := by
        cases b <;> cases stop <;> simp_all
      rw [hb, shortCircuit_neutral, shortCircuit_nil]

/-- Neutral parts can be left out. -/
theorem shortCircuit_filter {α : Type} (f : α → Except ε Bool) (p : α → Bool) (as : List α)
    (h : ∀ a ∈ as, p a = false → f a = .ok !stop) :
    shortCircuit stop ((as.filter p).map f) = shortCircuit stop (as.map f) := by
  induction as with
  | nil => rfl
  | cons a as ih =>
    obtain ⟨ha, has⟩ := List.forall_mem_cons.mp h
    cases hp : p a with
    | false =>
      rw [List.filter_cons_of_neg (by rw [hp]; exact Bool.false_ne_true), List.map_cons, ha hp,
        shortCircuit_neutral, ih has]
    | true =>
      rw [List.filter_cons_of_pos hp, List.map_cons, List.map_cons]
      cases f a with
      | error e => rfl
      | ok b =>
        unfold shortCircuit
        rw [ih has]

/-- The first part decides if it stops wherever it answers. -/
theorem shortCircuit_of_first (h : ∀ b, x = .ok b → b = stop) : shortCircuit stop (x :: xs) = x := by
  cases x with
  | error e => rfl
  | ok b => rw [h b rfl, shortCircuit_stop]

/-- AND is true exactly if all parts are. -/
theorem shortCircuit_and_true : shortCircuit false xs = .ok true ↔ ∀ x ∈ xs, x = .ok true := by
  induction xs with
  | nil => exact iff_of_true rfl (List.forall_mem_nil _)
  | cons x xs ih =>
    rw [List.forall_mem_cons, ← ih]
    cases x with
    | error e => simp [shortCircuit]
    | ok b => cases b <;> simp [shortCircuit]

end Miniob.Common
