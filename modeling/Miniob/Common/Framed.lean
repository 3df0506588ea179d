/-
  Records that are written one behind the other, and files of them that have been cut off.

  `encode` stands for any way of writing a record.  Where a file is cut off there is a longest
  prefix of complete records (`complete`), and behind it either nothing (`AtBoundary`) or a part of
  one more record.
-/
import Mathlib.Data.List.Basic

namespace Miniob.Common

section Framed

variable {E B : Type} (encode : E → List B)

/-- The file with all records. -/
def encodeAll (es : List E) : List B := es.flatMap encode

/-- The records that end before an offset. -/
def complete : List E → Nat → List E
  | [], _ => []
  | e :: es, k =>
    if (encode e).length ≤ k then e :: complete es (k - (encode e).length) else []

/-- A record ends at the offset, or it is the beginning of the file, or behind its end. -/
def AtBoundary (es : List E) (k : Nat) : Prop :=
  (encodeAll encode es).take k = encodeAll encode (complete encode es k)

variable {encode} {es : List E} {k : Nat}

@[simp] theorem encodeAll_nil : encodeAll encode [] = [] := rfl

theorem encodeAll_cons (e : E) (es : List E) :
    encodeAll encode (e :: es) = encode e ++ encodeAll encode es := List.flatMap_cons

theorem encodeAll_append (es es' : List E) :
    encodeAll encode (es ++ es') = encodeAll encode es ++ encodeAll encode es' :=
  List.flatMap_append

theorem encodeAll_singleton (e : E) : encodeAll encode [e] = encode e := by
  rw [encodeAll_cons, encodeAll_nil, List.append_nil]

theorem complete_isPrefix (es : List E) (k : Nat) : complete encode es k <+: es := by
  induction es generalizing k with
  | nil => exact List.prefix_refl _
  | cons e es ih =>
    unfold complete
    split
    · exact (List.prefix_cons_inj e).mpr (ih _)
    · exact List.nil_prefix

end Framed

end Miniob.Common
