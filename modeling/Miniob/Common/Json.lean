/-
  JSON values, as a library with objects in the order of their keys has them.

  1. `set` and `append` build values, `member` and `item` read them.  What `set` puts in, `member` gives
     back (`member_set`), in an object of any other members.
  2. `Normal`: in every object each key stands once, in order.  `set` and `append` keep this.
  3. `Library`: a writer and a parser.  They promise that a normal value that was written is parsed again.
-/
import Mathlib.Data.List.Basic
import Mathlib.Order.Lattice

namespace Miniob.Common

/-- A value of JSON; `K` are the names of members and `S` the texts. -/
inductive Json (K S : Type) where
  | null
  | bool (b : Bool)
  | int (n : Int)
  | string (s : S)
  | array (items : List (Json K S))
  | object (members : List (K × Json K S))

namespace Json

variable {K S : Type} [LinearOrder K]

/-! ## Building values -/

/-- The members with one more, or with another value for a key. -/
def insertMember (key : K) (x : Json K S) : List (K × Json K S) → List (K × Json K S)
  | [] => [(key, x)]
  | m :: ms =>
    if key < m.1 then (key, x) :: m :: ms
    else if key = m.1 then (key, x) :: ms
    else m :: insertMember key x ms

/-- Assignment to a member; a value that has none becomes an object. -/
def set (v : Json K S) (key : K) (x : Json K S) : Json K S :=
  match v with
  | object members => object (insertMember key x members)
  | _ => object [(key, x)]

/-- One more item; a value that has none becomes an array. -/
def append (v x : Json K S) : Json K S :=
  match v with
  | array items => array (items ++ [x])
  | _ => array [x]

/-- The items one after the other. -/
def appendAll (v : Json K S) (xs : List (Json K S)) : Json K S := xs.foldl append v

/-! ## Reading values -/

/-- A member of an object; null where there is none. -/
def member (v : Json K S) (key : K) : Json K S :=
  match v with
  | object members => ((members.find? fun m => decide (m.1 = key)).map Prod.snd).getD null
  | _ => null

def items : Json K S → List (Json K S)
  | array items => items
  | _ => []

def isArray : Json K S → Bool
  | array _ => true
  | _ => false

def isObject : Json K S → Bool
  | object _ => true
  | _ => false

/-- Null, or nothing in it. -/
def isEmpty : Json K S → Bool
  | null => true
  | array items => items.isEmpty
  | object members => members.isEmpty
  | _ => false

def asBool : Json K S → Option Bool
  | bool b => some b
  | _ => none

/-- A number that is an `int`. -/
def asInt : Json K S → Option Int32
  | int n => if (Int32.ofInt n).toInt = n then some (.ofInt n) else none
  | _ => none

def asString : Json K S → Option S
  | string s => some s
  | _ => none

omit [LinearOrder K] in
@[simp] theorem asInt_int (x : Int32) : (int x.toInt : Json K S).asInt = some x := by
  rw [asInt, Int32.ofInt_toInt, if_pos rfl]

/-! ## What was put in -/

/-- A member that is set is found, and so are the others. -/
theorem find?_insertMember (key key' : K) (x : Json K S) (members : List (K × Json K S)) :
    (insertMember key x members).find? (fun m => decide (m.1 = key'))
      = if key' = key then some (key, x) else members.find? fun m => decide (m.1 = key') := by
  induction members with
  | nil =>
    rw [insertMember, List.find?_cons]
    by_cases h : key' = key
    · rw [h, decide_eq_true rfl, if_pos rfl]
    · rw [decide_eq_false (Ne.symm h), if_neg h]
  | cons m ms ih =>
    rw [insertMember]
    by_cases h : key' = key
    · subst h
      rw [if_pos rfl] at ih ⊢
      split_ifs with hlt heq
      · rw [List.find?_cons, decide_eq_true rfl]
      · rw [List.find?_cons, decide_eq_true rfl]
      · rw [List.find?_cons, decide_eq_false (Ne.symm heq), ih]
    · rw [if_neg h] at ih ⊢
      split_ifs with hlt heq
      · rw [List.find?_cons, decide_eq_false (Ne.symm h)]
      · rw [List.find?_cons, decide_eq_false (Ne.symm h), List.find?_cons,
          decide_eq_false (fun hm => h (hm.symm.trans heq.symm))]
      · rw [List.find?_cons, List.find?_cons, ih]

/-- What is set is read, and the other members stay. -/
@[simp] theorem member_set (v x : Json K S) (key key' : K) :
    (v.set key x).member key' = if key' = key then x else v.member key' := by
  have hsingle : (object [(key, x)] : Json K S).member key' = if key' = key then x else null := by
    have hfind := find?_insertMember key key' x ([] : List (K × Json K S))
    rw [insertMember] at hfind
    rw [member, hfind]
    split <;> rfl
  cases v with
  | object members =>
    rw [set, member, find?_insertMember]
    split <;> rfl
  | null => exact hsingle
  | bool b => exact hsingle
  | int n => exact hsingle
  | string s => exact hsingle
  | array items => exact hsingle

@[simp] theorem isObject_set (v x : Json K S) (key : K) : (v.set key x).isObject = true := by
  cases v <;> rfl

omit [LinearOrder K] in
/-- Elements are appended behind those that are there. -/
theorem appendAll_array (xs ys : List (Json K S)) : (array ys : Json K S).appendAll xs = array (ys ++ xs) := by
  induction xs generalizing ys with
  | nil => rw [appendAll, List.foldl_nil, List.append_nil]
  | cons x xs ih =>
    rw [appendAll, List.foldl_cons]
    show (array (ys ++ [x]) : Json K S).appendAll xs = _
    rw [ih, List.append_assoc, List.singleton_append]

omit [LinearOrder K] in
/-- Null stands for the array without items. -/
theorem appendAll_null (xs : List (Json K S)) :
    (null : Json K S).appendAll xs = if xs.isEmpty then null else array xs := by
  cases xs with
  | nil => rfl
  | cons x xs => exact appendAll_array xs [x]

omit [LinearOrder K] in
@[simp] theorem items_appendAll_null (xs : List (Json K S)) : ((null : Json K S).appendAll xs).items = xs := by
  rw [appendAll_null]
  cases xs <;> rfl

omit [LinearOrder K] in
@[simp] theorem isEmpty_appendAll_null (xs : List (Json K S)) :
    ((null : Json K S).appendAll xs).isEmpty = xs.isEmpty := by
  rw [appendAll_null]
  cases xs <;> rfl

omit [LinearOrder K] in
theorem isArray_appendAll_null {xs : List (Json K S)} (h : xs ≠ []) :
    ((null : Json K S).appendAll xs).isArray = true := by
  rw [appendAll_null]
  cases xs with
  | nil => exact absurd rfl h
  | cons x xs => rfl

/-! ## Normal values -/

/-- The members of an object are sorted by name, as the library keeps them. -/
inductive Normal : Json K S → Prop where
  | null : Normal null
  | bool (b : Bool) : Normal (bool b)
  | int (n : Int) : Normal (int n)
  | string (s : S) : Normal (string s)
  | array {items : List (Json K S)} : (∀ x ∈ items, Normal x) → Normal (array items)
  | object {members : List (K × Json K S)} : members.Pairwise (fun a b => a.1 < b.1) →
      (∀ m ∈ members, Normal m.2) → Normal (object members)

/-- Nothing but the member that is set comes in. -/
theorem mem_insertMember {key : K} {x : Json K S} {m : K × Json K S} {members : List (K × Json K S)}
    (h : m ∈ insertMember key x members) : m = (key, x) ∨ m ∈ members := by
  induction members with
  | nil => exact Or.inl (List.mem_singleton.mp h)
  | cons n ns ih =>
    rw [insertMember] at h
    split_ifs at h
    · exact List.mem_cons.mp h
    · rcases List.mem_cons.mp h with heq | hmem
      · exact Or.inl heq
      · exact Or.inr (List.mem_cons_of_mem n hmem)
    · rcases List.mem_cons.mp h with heq | hmem
      · exact Or.inr (heq ▸ List.mem_cons_self)
      · exact (ih hmem).imp id (List.mem_cons_of_mem n)

/-- And it comes to its place. -/
theorem sorted_insertMember (key : K) (x : Json K S) {members : List (K × Json K S)}
    (h : members.Pairwise fun a b => a.1 < b.1) :
    (insertMember key x members).Pairwise fun a b => a.1 < b.1 := by
  induction members with
  | nil => exact List.pairwise_singleton _ _
  | cons m ms ih =>
    obtain ⟨hm, hms⟩ := List.pairwise_cons.mp h
    rw [insertMember]
    split_ifs with hlt heq
    · refine List.pairwise_cons.mpr ⟨fun n hn => ?_, h⟩
      rcases List.mem_cons.mp hn with rfl | hn
      · exact hlt
      · exact lt_trans hlt (hm n hn)
    · refine List.pairwise_cons.mpr ⟨fun n hn => ?_, hms⟩
      show key < n.1
      rw [heq]
      exact hm n hn
    · refine List.pairwise_cons.mpr ⟨fun n hn => ?_, ih hms⟩
      rcases mem_insertMember hn with rfl | hn
      · exact lt_of_le_of_ne (not_lt.mp hlt) (Ne.symm heq)
      · exact hm n hn

/-- So that the object stays normal. -/
theorem Normal.set {v x : Json K S} (hv : v.Normal) (hx : x.Normal) (key : K) : (v.set key x).Normal := by
  have hsingle : (Json.object [(key, x)] : Json K S).Normal :=
    .object (List.pairwise_singleton _ _) fun m hm => by rwa [List.mem_singleton.mp hm]
  cases hv with
  | object hsorted hmembers =>
    refine .object (sorted_insertMember key x hsorted) fun m hm => ?_
    rcases mem_insertMember hm with rfl | hm
    · exact hx
    · exact hmembers m hm
  | null => exact hsingle
  | bool b => exact hsingle
  | int n => exact hsingle
  | string s => exact hsingle
  | array h => exact hsingle

theorem Normal.appendAll_null {xs : List (Json K S)} (h : ∀ x ∈ xs, x.Normal) :
    ((Json.null : Json K S).appendAll xs).Normal := by
  rw [Json.appendAll_null]
  split
  · exact .null
  · exact .array h

/-! ## Libraries -/

/-- Writing and parsing.  Every other text is parsed somehow, or refused. -/
structure Library (K S T : Type) [LinearOrder K] where
  write : Json K S → T
  parse : T → Option (Json K S)
  faithful : ∀ v, v.Normal → parse (write v) = some v

end Json

end Miniob.Common
