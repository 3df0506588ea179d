/-
  Physical operators: `open`, `next` until it answers `RECORD_EOF`, `close`.

  1. `PhysicalOperator` has the three methods and `current_tuple`, whose result is read through the pointer:
     it is what the operator shows in its present state.
  2. `Replay` is the contract between an operator and the one above it: whenever it is opened it gives the
     same rows, in order, and then the end.  Nothing is asked of it behind the end but that it can be closed.
-/
import Mathlib.Data.List.Basic
import Miniob.Storage.Types

namespace Miniob.Exec

open Miniob.Storage (RC)

/-! ## Tuples -/

/-- A `Tuple`: cells with their specifications. -/
structure Tuple (C V : Type) where
  cellNum : Nat
  cellAt : Int → Except RC V
  specAt : Int → Except RC C
  findCell : C → Except RC V

variable {C V : Type}

/-- All cells, in order. -/
def Tuple.cells (t : Tuple C V) : List (Except RC V) := (List.range t.cellNum).map fun i : Nat => t.cellAt i

def Tuple.specs (t : Tuple C V) : List (Except RC C) := (List.range t.cellNum).map fun i : Nat => t.specAt i

/-! ## Operators -/

/-- `X` is what `open` hands down, the transaction; `S` is the state of the object. -/
structure PhysicalOperator (X S C V : Type) where
  openOperator : X → S → RC × S
  next : S → RC × S
  close : S → RC × S
  currentTuple : S → Tuple C V

variable {X S : Type}

/-- The operator gives the rows whenever it is opened. -/
structure Replay (op : PhysicalOperator X S C V) (trx : X) (rows : List (Tuple C V)) where
  /-- It can be opened. -/
  Closed : S → Prop
  /-- It has been opened, and these are the rows to come. -/
  Ahead : List (Tuple C V) → S → Prop
  /-- It has been opened and not closed since. -/
  Opened : S → Prop
  opens : ∀ s, Closed s → ∃ s', op.openOperator trx s = (.success, s') ∧ Ahead rows s'
  row : ∀ t ts s, Ahead (t :: ts) s →
    ∃ s', op.next s = (.success, s') ∧ op.currentTuple s' = t ∧ Ahead ts s'
  eof : ∀ s, Ahead [] s → ∃ s', op.next s = (.recordEof, s') ∧ Opened s'
  opened : ∀ ts s, Ahead ts s → Opened s
  closes : ∀ s, Opened s → ∃ s', op.close s = (.success, s') ∧ Closed s'

/-- An object that is closed and gives the rows at each open. -/
def Replays (op : PhysicalOperator X S C V) (trx : X) (rows : List (Tuple C V)) (s : S) : Prop :=
  ∃ R : Replay op trx rows, R.Closed s

/-! ## A scan -/

/-- An operator that holds its rows: those to come, and the one that was fetched last. -/
def scan (rows : List (Tuple C V)) : PhysicalOperator X (List (Tuple C V) × Tuple C V) C V where
  openOperator _ s := (.success, rows, s.2)
  next s := match s.1 with
    | [] => (.recordEof, s)
    | t :: ts => (.success, ts, t)
  close s := (.success, [], s.2)
  currentTuple s := s.2

theorem scan_replays (rows : List (Tuple C V)) (trx : X) (s : List (Tuple C V) × Tuple C V) :
    Replays (scan rows) trx rows s := by
  refine ⟨⟨fun _ => True, fun ts s => s.1 = ts, fun _ => True, ?_, ?_, ?_, ?_, ?_⟩, trivial⟩
  · exact fun s _ => ⟨(rows, s.2), rfl, rfl⟩
  · rintro t ts ⟨-, current⟩ rfl
    exact ⟨(ts, t), rfl, rfl, rfl⟩
  · rintro ⟨-, current⟩ rfl
    exact ⟨([], current), rfl, trivial⟩
  · exact fun _ _ _ => trivial
  · exact fun s _ => ⟨([], s.2), rfl, trivial⟩

end Miniob.Exec
