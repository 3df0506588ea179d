/-
  Three-valued logic: true, false and unknown, as it is in SQL.

  A test that asks only whether a value is true may take unknown and false together.  It then still
  answers right below conjunctions and disjunctions (`and_eq_true`, `all_eq_true`, `or_eq_true`,
  `any_eq_true`), but not below a negation, which asks whether the value is false.
-/
import Mathlib.Data.Option.Basic

namespace Miniob.Common

/-- `none` is unknown. -/
abbrev Truth := Option Bool

namespace Truth

/-- Unknown stays unknown. -/
def not : Truth → Truth
  | some b => some (!b)
  | none => none

/-- A false operand decides, whatever the other one is. -/
def and : Truth → Truth → Truth
  | some false, _ => some false
  | _, some false => some false
  | some true, some true => some true
  | _, _ => none

/-- A true operand decides, whatever the other one is. -/
def or : Truth → Truth → Truth
  | some true, _ => some true
  | _, some true => some true
  | some false, some false => some false
  | _, _ => none

/-- AND over a list; over none it is true. -/
def all : List Truth → Truth
  | [] => some true
  | t :: ts => and t (all ts)

/-- OR over a list; over none it is false. -/
def any : List Truth → Truth
  | [] => some false
  | t :: ts => or t (any ts)

/-- A relation between values that may be missing. -/
def relate {α β : Type} (r : α → β → Bool) (a : Option α) (b : Option β) : Truth :=
  a.bind fun a => b.map fun b => r a b

/-- True needs both. -/
theorem and_eq_true {s t : Truth} : and s t = some true ↔ s = some true ∧ t = some true := by
  rcases s with _ | _ | _ <;> rcases t with _ | _ | _ <;> decide

/-- True needs one, and an unknown one does not count. -/
theorem or_eq_true {s t : Truth} : or s t = some true ↔ s = some true ∨ t = some true := by
  rcases s with _ | _ | _ <;> rcases t with _ | _ | _ <;> decide

/-- A conjunction is true only if nothing in it is false or unknown. -/
theorem all_eq_true {ts : List Truth} : all ts = some true ↔ ∀ t ∈ ts, t = some true := by
  induction ts with
  | nil => simp [all]
  | cons t ts ih => rw [all, and_eq_true, ih, List.forall_mem_cons]

/-- A disjunction is true if something in it is, whatever the others are. -/
theorem any_eq_true {ts : List Truth} : any ts = some true ↔ ∃ t ∈ ts, t = some true := by
  induction ts with
  | nil => simp [any]
  | cons t ts ih =>
    rw [any, or_eq_true, ih]
    simp only [List.mem_cons, exists_eq_or_imp]

/-- The result is known only if both values are there. -/
theorem relate_eq_some {α β : Type} {r : α → β → Bool} {a : Option α} {b : Option β} {t : Bool} :
    relate r a b = some t ↔ ∃ x y, a = some x ∧ b = some y ∧ r x y = t := by
  cases a <;> cases b <;> simp [relate]

end Truth

end Miniob.Common
