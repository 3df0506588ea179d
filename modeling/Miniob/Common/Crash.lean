/-
  Crashes between the writes of an operation, for any kind of store and of write.

  An operation writes one thing after the other; a crash leaves what has been written so far.
  `AtEveryCrash` says that a property holds wherever the writes are cut off, and is put together
  from the single writes.
-/

namespace Miniob.Common

section Crash

variable {S W : Type} (write : S → W → S)

/-- The store after the writes. -/
def afterWrites (s : S) (ws : List W) : S := ws.foldl write s

/-- The property holds wherever the writes are cut off. -/
def AtEveryCrash (P : S → Prop) (s : S) (ws : List W) : Prop :=
  ∀ k, P (afterWrites write s (ws.take k))

variable {write} {P Q : S → Prop} {s : S} {w : W} {ws ws' : List W}

theorem afterWrites_append : afterWrites write s (ws ++ ws') =
    afterWrites write (afterWrites write s ws) ws' :=
  List.foldl_append

theorem AtEveryCrash.nil (h : P s) : AtEveryCrash write P s [] := by
  intro k
  rw [List.take_nil]
  exact h

theorem AtEveryCrash.cons (h : P s) (hws : AtEveryCrash write P (write s w) ws) :
    AtEveryCrash write P s (w :: ws) := by
  intro k
  cases k with
  | zero => exact h
  | succ k => exact hws k

theorem AtEveryCrash.single (h : P s) (h' : P (write s w)) : AtEveryCrash write P s [w] :=
  .cons h (.nil h')

/-- Two parts, one after the other. -/
theorem AtEveryCrash.append (h : AtEveryCrash write P s ws)
    (h' : AtEveryCrash write P (afterWrites write s ws) ws') :
    AtEveryCrash write P s (ws ++ ws') := by
  intro k
  rcases Nat.le_total k ws.length with hle | hge
  · rw [List.take_append_of_le_length hle]
    exact h k
  · rw [List.take_append, List.take_of_length_le hge, afterWrites_append]
    exact h' (k - ws.length)

theorem AtEveryCrash.mono (himp : ∀ s, P s → Q s) (h : AtEveryCrash write P s ws) :
    AtEveryCrash write Q s ws :=
  fun k => himp _ (h k)

end Crash

end Miniob.Common
