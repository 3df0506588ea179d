/-
  The cache of the frames (`LruCache` in deps/common/lang/lru_cache.h): nodes in a doubly linked list in
  the order of use, and a hash set of pointers to them.

  1. The nodes lie at addresses.  A pointer to a node that has been deleted, or was never there, is a
     fault; so is a loop over the list that does not end.
  2. `Holds`: the nodes are exactly those of the list, linked in both directions from front to tail, and
     the hash set has the same ones, no two with one key.  Each operation keeps this (`get_spec`,
     `put_spec`, `remove_spec`), and what it does to the entries is said by `used` and `forgotten`.
  3. `Ordered`: the entries are those that were put and not removed, in the order of their last use.
  4. `lru_cache_ordered` puts the two together for all runs.

  The hash set compares keys with `==`; its buckets are not modelled, nor is what a callback does besides
  its answer.
-/
import Miniob.Common.Linked
import Miniob.Cache.FrameManager

namespace Miniob.Cache

open Miniob.Common

/-! ## The code -/

structure ListNode (K V A : Type) where
  key : K
  value : V
  prev : Option A
  next : Option A

/-- A pointer that is read though it is null or gone. -/
inductive LruFault where
  /-- A pointer to no node is followed. -/
  | dangling
  /-- `new` gives the address of a node. -/
  | taken
  /-- A loop over the nodes does not end. -/
  | endless
  deriving DecidableEq

structure LruCache (K V A : Type) where
  node : A → Option (ListNode K V A)
  /-- `searcher_`. -/
  searcher : List A
  lruFront : Option A
  lruTail : Option A

namespace LruCache

section Code

variable {K V A : Type} [DecidableEq K] [DecidableEq A] (c : LruCache K V A)

def empty : LruCache K V A := ⟨fun _ => none, [], none, none⟩

def count : Nat := c.searcher.length

def load (p : A) : Except LruFault (ListNode K V A) :=
  match c.node p with
  | some n => .ok n
  | none => .error .dangling

/-- A write to a node. -/
def write (p : A) (f : ListNode K V A → ListNode K V A) : Except LruFault (LruCache K V A) :=
  match c.node p with
  | some n => .ok { c with node := Function.update c.node p (some (f n)) }
  | none => .error .dangling

def setPrev (p : A) (v : Option A) : Except LruFault (LruCache K V A) := c.write p fun n => { n with prev := v }

def setNext (p : A) (v : Option A) : Except LruFault (LruCache K V A) := c.write p fun n => { n with next := v }

/-- `prev_` behind a pointer that is not null. -/
def setPrevOf (p v : Option A) : Except LruFault (LruCache K V A) :=
  match p with
  | some p => c.setPrev p v
  | none => .ok c

/-- `next_` behind a pointer that is not null. -/
def setNextOf (p v : Option A) : Except LruFault (LruCache K V A) :=
  match p with
  | some p => c.setNext p v
  | none => .ok c

/-- `searcher_.find`. -/
def findIn (key : K) : List A → Except LruFault (Option A)
  | [] => .ok none
  | p :: ps => do
    let n ← c.load p
    if n.key = key then .ok (some p) else findIn key ps

/-- The lines of `lru_touch` and `lru_push` that put a node in front. -/
def linkFront (p : A) : Except LruFault (LruCache K V A) := do
  let c ← c.setPrev p none
  let c ← c.setNext p c.lruFront
  let c ← c.setPrevOf c.lruFront (some p)
  .ok { c with lruFront := some p }

/-- The lines of `lru_touch` behind the first `if` that take the node out of its place. -/
def unlinkTouched (p : A) : Except LruFault (LruCache K V A) := do
  let n ← c.load p
  let c ← c.setNextOf n.prev n.next
  let n ← c.load p
  if n.next.isSome then c.setPrevOf n.next n.prev else .ok { c with lruTail := n.prev }

def lruTouch (p : A) : Except LruFault (LruCache K V A) := do
  let n ← c.load p
  if n.prev.isNone then .ok c
  else do
    let c ← c.unlinkTouched p
    c.linkFront p

/-- `searcher_.insert`: a key that is there stays. -/
def insertNode (p : A) : Except LruFault (LruCache K V A) := do
  let n ← c.load p
  let found ← c.findIn n.key c.searcher
  .ok (if found.isSome then c else { c with searcher := p :: c.searcher })

def lruPush (p : A) : Except LruFault (LruCache K V A) := do
  let c := if c.lruTail.isNone then { c with lruTail := some p } else c
  let c ← c.linkFront p
  c.insertNode p

/-- `searcher_.erase` of the node with a key, and `delete`. -/
def deleteNode (p : A) (key : K) : LruCache K V A where
  node := Function.update c.node p none
  searcher := c.searcher.filter fun q => (c.node q).map ListNode.key ≠ some key
  lruFront := c.lruFront
  lruTail := c.lruTail

/-- `lru_remove`: the node is taken out of the list, and stays in the set. -/
def lruRemove (p : A) : Except LruFault (LruCache K V A) := do
  let n ← c.load p
  let c ← c.setNextOf n.prev n.next
  let n ← c.load p
  let c ← c.setPrevOf n.next n.prev
  let n ← c.load p
  let c := if c.lruFront = some p then { c with lruFront := n.next } else c
  let c := if c.lruTail = some p then { c with lruTail := n.prev } else c
  .ok (c.deleteNode p n.key)

/-- `get`: a node that is found goes to the front. -/
def get (key : K) : Except LruFault (Option V × LruCache K V A) := do
  let iter ← c.findIn key c.searcher
  match iter with
  | none => .ok (none, c)
  | some p => do
    let c ← c.lruTouch p
    let n ← c.load p
    .ok (some n.value, c)

/-- `put`; `new` gives the address `addr`. -/
def put (key : K) (value : V) (addr : A) : Except LruFault (LruCache K V A) := do
  let iter ← c.findIn key c.searcher
  match iter with
  | some p => do
    let c ← c.write p fun n => { n with value }
    c.lruTouch p
  | none =>
    if (c.node addr).isSome then .error .taken
    else lruPush { c with node := Function.update c.node addr (some ⟨key, value, none, none⟩) } addr

def remove (key : K) : Except LruFault (LruCache K V A) := do
  let iter ← c.findIn key c.searcher
  match iter with
  | none => .ok c
  | some p => c.lruRemove p

/-- The loops of `foreach` and `foreach_reverse`: what the callback gets until it answers false.  The
    first argument bounds the number of nodes. -/
def foreachLoop (along : ListNode K V A → Option A) (func : K → V → Bool) :
    Nat → Option A → Except LruFault (List (K × V))
  | _, none => .ok []
  | 0, some _ => .error .endless
  | fuel + 1, some p => do
    let n ← c.load p
    if func n.key n.value then
      let rest ← foreachLoop along func fuel (along n)
      .ok ((n.key, n.value) :: rest)
    else .ok [(n.key, n.value)]

def foreach (func : K → V → Bool) : Except LruFault (List (K × V)) :=
  c.foreachLoop ListNode.next func c.count c.lruFront

def foreachReverse (func : K → V → Bool) : Except LruFault (List (K × V)) :=
  c.foreachLoop ListNode.prev func c.count c.lruTail

end Code

end LruCache

/-! ## Entries in the order of use -/

section Entries

variable {K V : Type} [DecidableEq K]

/-- The value of a key. -/
def lookup (key : K) (es : List (K × V)) : Option V := (es.find? fun e => e.1 = key).map Prod.snd

/-- The key is gone. -/
def forgotten (key : K) (es : List (K × V)) : List (K × V) := es.filter fun e => e.1 ≠ key

/-- The key comes in front, with its value. -/
def used (key : K) (value : V) (es : List (K × V)) : List (K × V) := (key, value) :: forgotten key es

/-- What a callback gets of the entries until it answers false. -/
def visited (func : K → V → Bool) : List (K × V) → List (K × V)
  | [] => []
  | e :: es => if func e.1 e.2 then e :: visited func es else [e]

end Entries

/-! ## What an operation does to the nodes -/

namespace LruCache

section Nodes

variable {K V A : Type} [DecidableEq K] [DecidableEq A] {entry : A → Option (K × V)}
  {prev next : A → Option A} {searcher : List A} {front tail : Option A} {p : A} {key : K} {value : V}

/-- The cache whose nodes have these entries and links. -/
def ofMaps (entry : A → Option (K × V)) (prev next : A → Option A) (searcher : List A)
    (front tail : Option A) : LruCache K V A :=
  ⟨fun a => (entry a).map fun e => ⟨e.1, e.2, prev a, next a⟩, searcher, front, tail⟩

omit [DecidableEq K] [DecidableEq A] in
theorem node_ofMaps (hp : entry p = some (key, value)) :
    (ofMaps entry prev next searcher front tail).node p = some ⟨key, value, prev p, next p⟩ :=
  congrArg (Option.map _) hp

omit [DecidableEq K] [DecidableEq A] in
theorem load_ofMaps (hp : entry p = some (key, value)) :
    (ofMaps entry prev next searcher front tail).load p = .ok ⟨key, value, prev p, next p⟩ := by
  rw [load, node_ofMaps hp]

omit [DecidableEq K] in
/-- Writing a node writes each of the four maps at its address. -/
theorem write_ofMaps (hp : entry p = some (key, value)) (f : ListNode K V A → ListNode K V A) :
    (ofMaps entry prev next searcher front tail).write p f
      = .ok (ofMaps (Function.update entry p
            (some ((f ⟨key, value, prev p, next p⟩).key, (f ⟨key, value, prev p, next p⟩).value)))
          (Function.update prev p (f ⟨key, value, prev p, next p⟩).prev)
          (Function.update next p (f ⟨key, value, prev p, next p⟩).next) searcher front tail) := by
  rw [write, node_ofMaps hp]
  refine congrArg Except.ok ?_
  rw [ofMaps, ofMaps, LruCache.mk.injEq]
  refine ⟨funext fun a => ?_, rfl, rfl, rfl⟩
  by_cases ha : a = p
  · subst ha
    simp only [Function.update_self, Option.map_some]
  · simp only [Function.update_of_ne ha]

omit [DecidableEq K] in
theorem setPrev_ofMaps (hp : (entry p).isSome) (w : Option A) :
    (ofMaps entry prev next searcher front tail).setPrev p w
      = .ok (ofMaps entry (Function.update prev p w) next searcher front tail) := by
  obtain ⟨⟨key, value⟩, hp⟩ := Option.isSome_iff_exists.mp hp
  rw [setPrev, write_ofMaps hp]
  dsimp only
  rw [← hp, Function.update_eq_self, Function.update_eq_self]

omit [DecidableEq K] in
theorem setNext_ofMaps (hp : (entry p).isSome) (w : Option A) :
    (ofMaps entry prev next searcher front tail).setNext p w
      = .ok (ofMaps entry prev (Function.update next p w) searcher front tail) := by
  obtain ⟨⟨key, value⟩, hp⟩ := Option.isSome_iff_exists.mp hp
  rw [setNext, write_ofMaps hp]
  dsimp only
  rw [← hp, Function.update_eq_self, Function.update_eq_self]

omit [DecidableEq K] in
theorem setPrevOf_ofMaps {q : Option A} (hq : ∀ a ∈ q, (entry a).isSome) (w : Option A) :
    (ofMaps entry prev next searcher front tail).setPrevOf q w
      = .ok (ofMaps entry (setAt prev q w) next searcher front tail) := by
  cases q with
  | none => rfl
  | some q => exact setPrev_ofMaps (hq q rfl) w

omit [DecidableEq K] in
theorem setNextOf_ofMaps {q : Option A} (hq : ∀ a ∈ q, (entry a).isSome) (w : Option A) :
    (ofMaps entry prev next searcher front tail).setNextOf q w
      = .ok (ofMaps entry prev (setAt next q w) searcher front tail) := by
  cases q with
  | none => rfl
  | some q => exact setNext_ofMaps (hq q rfl) w

omit [DecidableEq K] in
theorem linkFront_ofMaps (hp : (entry p).isSome) (hfront : ∀ a ∈ front, (entry a).isSome) :
    (ofMaps entry prev next searcher front tail).linkFront p
      = .ok (ofMaps entry (setAt (Function.update prev p none) front (some p))
          (Function.update next p front) searcher (some p) tail) := by
  rw [linkFront, bind_ok _ (setPrev_ofMaps hp none), bind_ok _ (setNext_ofMaps hp _)]
  exact bind_ok _ (setPrevOf_ofMaps hfront _)

omit [DecidableEq K] in
/-- Both neighbours are linked to each other, and a last node makes the one in front the tail. -/
theorem unlinkTouched_ofMaps (hp : entry p = some (key, value)) (hprev : ∀ a ∈ prev p, (entry a).isSome)
    (hnext : ∀ a ∈ next p, (entry a).isSome) (hne : prev p ≠ some p) :
    (ofMaps entry prev next searcher front tail).unlinkTouched p
      = .ok (ofMaps entry (setAt prev (next p) (prev p)) (setAt next (prev p) (next p)) searcher front
          (if (next p).isSome then tail else prev p)) := by
  rw [unlinkTouched, bind_ok _ (load_ofMaps hp), bind_ok _ (setNextOf_ofMaps hprev _),
    bind_ok _ (load_ofMaps hp)]
  dsimp only
  rw [setAt_of_ne hne]
  cases hn : next p with
  | none => rfl
  | some n =>
    rw [hn] at hnext
    rw [Option.isSome_some, if_pos rfl, if_pos rfl, setPrevOf_ofMaps hnext]

/-- A node that is deleted is gone from the set as well. -/
theorem deleteNode_ofMaps (p : A) (key : K) :
    (ofMaps entry prev next searcher front tail).deleteNode p key
      = ofMaps (Function.update entry p none) prev next
          (searcher.filter fun q => decide ((entry q).map Prod.fst ≠ some key)) front tail := by
  rw [deleteNode, ofMaps, ofMaps, LruCache.mk.injEq]
  refine ⟨funext fun a => ?_, ?_, rfl, rfl⟩
  · by_cases ha : a = p
    · subst ha
      simp only [Function.update_self, Option.map_none]
    · simp only [Function.update_of_ne ha]
  · simp only [Option.map_map]
    rfl

/-- Both neighbours are linked to each other, and take the places of a first and a last node. -/
theorem lruRemove_ofMaps (hp : entry p = some (key, value)) (hprev : ∀ a ∈ prev p, (entry a).isSome)
    (hnext : ∀ a ∈ next p, (entry a).isSome) (hne : prev p ≠ some p) (hne' : next p ≠ some p) :
    (ofMaps entry prev next searcher front tail).lruRemove p
      = .ok (ofMaps (Function.update entry p none) (setAt prev (next p) (prev p))
          (setAt next (prev p) (next p))
          (searcher.filter fun q => decide ((entry q).map Prod.fst ≠ some key))
          (if front = some p then next p else front) (if tail = some p then prev p else tail)) := by
  rw [lruRemove, bind_ok _ (load_ofMaps hp), bind_ok _ (setNextOf_ofMaps hprev _),
    bind_ok _ (load_ofMaps hp)]
  dsimp only
  rw [setAt_of_ne hne, bind_ok _ (setPrevOf_ofMaps hnext _), bind_ok _ (load_ofMaps hp)]
  dsimp only
  rw [setAt_of_ne hne, setAt_of_ne hne', ← deleteNode_ofMaps]
  refine congrArg (fun c : LruCache K V A => Except.ok (c.deleteNode p key)) ?_
  by_cases hfront : front = some p
  · by_cases htail : tail = some p
    · rw [if_pos hfront, if_pos htail]
      simp [ofMaps, hfront, htail]
    · rw [if_pos hfront, if_neg htail]
      simp [ofMaps, hfront, htail]
  · by_cases htail : tail = some p
    · rw [if_neg hfront, if_pos htail]
      simp [ofMaps, hfront, htail]
    · rw [if_neg hfront, if_neg htail]
      simp [ofMaps, hfront, htail]

omit [DecidableEq A] in
/-- The key and value behind a pointer, as `find` reads them. -/
theorem findIn_ofMaps (key : K) : ∀ {ps : List A}, (∀ p ∈ ps, (entry p).isSome) →
    (∃ p v, (ofMaps entry prev next searcher front tail).findIn key ps = .ok (some p) ∧ p ∈ ps ∧
      entry p = some (key, v)) ∨
    ((ofMaps entry prev next searcher front tail).findIn key ps = .ok none ∧
      ∀ p ∈ ps, ∀ v, entry p ≠ some (key, v))
  | [], _ => Or.inr ⟨rfl, fun p hp => absurd hp List.not_mem_nil⟩
  | p :: ps, hlive => by
    rw [List.forall_mem_cons] at hlive
    obtain ⟨⟨key', value⟩, hp⟩ := Option.isSome_iff_exists.mp hlive.1
    rw [findIn, bind_ok _ (load_ofMaps hp)]
    dsimp only
    by_cases hkey : key' = key
    · subst hkey
      rw [if_pos rfl]
      exact Or.inl ⟨p, value, rfl, List.mem_cons_self, hp⟩
    · rw [if_neg hkey]
      rcases findIn_ofMaps key hlive.2 with ⟨q, v, hq, hmem, hv⟩ | ⟨hnone, hall⟩
      · exact Or.inl ⟨q, v, hq, List.mem_cons_of_mem p hmem, hv⟩
      · refine Or.inr ⟨hnone, fun q hq v heq => ?_⟩
        rcases List.mem_cons.mp hq with rfl | hq
        · rw [hp] at heq
          exact hkey (Prod.mk.inj (Option.some.inj heq)).1
        · exact hall q hq v heq

omit [DecidableEq K] in
/-- A new node has no neighbours. -/
theorem new_ofMaps (p : A) (key : K) (value : V) :
    ({ ofMaps entry prev next searcher front tail with
        node := Function.update (ofMaps entry prev next searcher front tail).node p
          (some ⟨key, value, none, none⟩) } : LruCache K V A)
      = ofMaps (Function.update entry p (some (key, value))) (Function.update prev p none)
          (Function.update next p none) searcher front tail := by
  rw [ofMaps, ofMaps, LruCache.mk.injEq]
  refine ⟨funext fun a => ?_, rfl, rfl, rfl⟩
  by_cases ha : a = p
  · subst ha
    simp only [Function.update_self, Option.map_some]
  · simp only [Function.update_of_ne ha]

/-- A node with a new key comes in front, and is the tail of an empty list. -/
theorem lruPush_ofMaps (hp : entry p = some (key, value)) (hfront : ∀ a ∈ front, (entry a).isSome)
    (hlive : ∀ a ∈ searcher, (entry a).isSome) (hkey : ∀ a ∈ searcher, ∀ v, entry a ≠ some (key, v)) :
    (ofMaps entry prev next searcher front tail).lruPush p
      = .ok (ofMaps entry (setAt (Function.update prev p none) front (some p))
          (Function.update next p front) (p :: searcher) (some p)
          (if tail.isNone then some p else tail)) := by
  have htail : (if (ofMaps entry prev next searcher front tail).lruTail.isNone then
        { ofMaps entry prev next searcher front tail with lruTail := some p }
      else ofMaps entry prev next searcher front tail)
      = ofMaps entry prev next searcher front (if tail.isNone then some p else tail) := by
    cases tail with
    | none => rfl
    | some q => rfl
  have hlink := @linkFront_ofMaps _ _ _ _ _ prev next searcher _ (if tail.isNone then some p else tail) p
    (by rw [hp]; rfl : (entry p).isSome) hfront
  rw [lruPush, htail, bind_ok _ hlink, insertNode, bind_ok _ (load_ofMaps hp)]
  dsimp only
  rcases @findIn_ofMaps _ _ _ _ _ (setAt (Function.update prev p none) front (some p))
    (Function.update next p front) searcher (some p) (if tail.isNone then some p else tail) key _ hlive
    with ⟨q, v, -, hq, hv⟩ | ⟨hnone, -⟩
  · exact absurd hv (hkey q hq v)
  · exact bind_ok _ hnone

end Nodes

/-! ## The invariant -/

section Invariant

variable {K V A : Type} [DecidableEq K] [DecidableEq A]

/-- The cache has the nodes `xs`, from front to tail, with these entries, and the hash set has the same. -/
structure Holds (c : LruCache K V A) (xs : List A) (entry : A → Option (K × V)) : Prop where
  /-- The links form one chain, and the hash set has its nodes in some order. -/
  shape : ∃ prev next searcher, c = ofMaps entry prev next searcher xs.head? xs.getLast? ∧
    Chain prev next none xs none ∧ searcher.Perm xs
  nodup : xs.Nodup
  /-- There are no other nodes. -/
  live : ∀ a, (entry a).isSome ↔ a ∈ xs
  /-- No key is there twice. -/
  keys : ((xs.filterMap entry).map Prod.fst).Nodup

variable {c c' : LruCache K V A} {xs pre post : List A} {entry : A → Option (K × V)} {p : A} {key : K}
  {value : V}

omit [DecidableEq K] [DecidableEq A] in
theorem filterMap_entry (pre post : List A) (hp : entry p = some (key, value)) :
    (pre ++ p :: post).filterMap entry = pre.filterMap entry ++ (key, value) :: post.filterMap entry := by
  rw [List.filterMap_append, List.filterMap_cons_some hp]

omit [DecidableEq K] in
/-- A node that is not in the list does not matter. -/
theorem filterMap_update (o : Option (K × V)) (hp : p ∉ xs) :
    xs.filterMap (Function.update entry p o) = xs.filterMap entry := by
  refine List.filterMap_congr fun a ha => ?_
  have hne : a ≠ p := fun heq => hp (heq ▸ ha)
  rw [Function.update_of_ne hne]

omit [DecidableEq K] [DecidableEq A] in
theorem Holds.not_mem (h : Holds c (pre ++ p :: post) entry) : p ∉ pre ++ post :=
  (List.nodup_cons.mp (List.nodup_middle.mp h.nodup)).1

/-- Without its key, a list with different keys has lost one entry. -/
theorem forgotten_append {l r : List (K × V)} (h : ((l ++ (key, value) :: r).map Prod.fst).Nodup) :
    forgotten key (l ++ (key, value) :: r) = l ++ r := by
  rw [List.map_append, List.map_cons, List.nodup_middle, List.nodup_cons, ← List.map_append] at h
  have hother : ∀ e ∈ l ++ r, e.1 ≠ key := fun e he heq => h.1 (List.mem_map.mpr ⟨e, he, heq⟩)
  have hl : l.filter (fun e => decide (e.1 ≠ key)) = l :=
    List.filter_eq_self.mpr fun e he => decide_eq_true (hother e (List.mem_append_left r he))
  have hr : r.filter (fun e => decide (e.1 ≠ key)) = r :=
    List.filter_eq_self.mpr fun e he => decide_eq_true (hother e (List.mem_append_right l he))
  rw [forgotten, List.filter_append, List.filter_cons_of_neg (by simp), hl, hr]

/-- Where no key occurs twice, the entry that is there is found. -/
theorem lookup_append {l r : List (K × V)} (h : ((l ++ (key, value) :: r).map Prod.fst).Nodup) :
    lookup key (l ++ (key, value) :: r) = some value := by
  rw [List.map_append, List.map_cons, List.nodup_middle, List.nodup_cons, ← List.map_append] at h
  have hl : l.find? (fun e => decide (e.1 = key)) = none :=
    List.find?_eq_none.mpr fun e he heq =>
      h.1 (List.mem_map.mpr ⟨e, List.mem_append_left r he, of_decide_eq_true heq⟩)
  rw [lookup, List.find?_append, hl, Option.none_or, List.find?_cons_of_pos (by simp)]
  rfl

/-- A key without an entry is not found. -/
theorem lookup_of_absent {es : List (K × V)} (h : ∀ v, (key, v) ∉ es) : lookup key es = none := by
  have hnone : es.find? (fun e => decide (e.1 = key)) = none := by
    refine List.find?_eq_none.mpr fun e he heq => h e.2 ?_
    rw [← of_decide_eq_true heq]
    exact he
  rw [lookup, hnone]
  rfl

theorem forgotten_of_absent {es : List (K × V)} (h : ∀ v, (key, v) ∉ es) : forgotten key es = es := by
  refine List.filter_eq_self.mpr fun e he => decide_eq_true fun heq => h e.2 ?_
  rw [← heq]
  exact he

omit [DecidableEq A] in
/-- `find` by a key. -/
theorem Holds.find (h : Holds c xs entry) (key : K) :
    (∃ pre p post v, c.findIn key c.searcher = .ok (some p) ∧ xs = pre ++ p :: post ∧
      entry p = some (key, v)) ∨
    (c.findIn key c.searcher = .ok none ∧ ∀ v, (key, v) ∉ xs.filterMap entry) := by
  obtain ⟨prev, next, searcher, rfl, -, hperm⟩ := h.shape
  have hlive : ∀ p ∈ searcher, (entry p).isSome := fun p hp => (h.live p).mpr (hperm.mem_iff.mp hp)
  rcases findIn_ofMaps key hlive with ⟨p, v, hfind, hmem, hv⟩ | ⟨hfind, hall⟩
  · obtain ⟨pre, post, heq⟩ := List.append_of_mem (hperm.mem_iff.mp hmem)
    exact Or.inl ⟨pre, p, post, v, hfind, heq, hv⟩
  · refine Or.inr ⟨hfind, fun v hmem => ?_⟩
    obtain ⟨p, hp, hv⟩ := List.mem_filterMap.mp hmem
    exact hall p (hperm.mem_iff.mpr hp) v hv

omit [DecidableEq K] [DecidableEq A] in
/-- The neighbours of a node are nodes, and other ones. -/
theorem neighbours (hnodup : (pre ++ p :: post).Nodup)
    (hlive : ∀ a, (entry a).isSome ↔ a ∈ pre ++ p :: post) :
    (∀ a ∈ pre.getLast?, (entry a).isSome) ∧ (∀ a ∈ post.head?, (entry a).isSome) ∧
      pre.getLast? ≠ some p ∧ post.head? ≠ some p := by
  have hp := (List.nodup_cons.mp (List.nodup_middle.mp hnodup)).1
  refine ⟨fun a ha => (hlive a).mpr ?_, fun a ha => (hlive a).mpr ?_, fun heq => ?_, fun heq => ?_⟩
  · exact List.mem_append_left _ (List.mem_of_getLast? ha)
  · exact List.mem_append_right _ (List.mem_cons_of_mem p (List.mem_of_head? ha))
  · exact hp (List.mem_append_left _ (List.mem_of_getLast? heq))
  · exact hp (List.mem_append_right _ (List.mem_of_head? heq))

omit [DecidableEq K] in
/-- `lru_touch` brings a node to the front. -/
theorem Holds.touch (h : Holds c (pre ++ p :: post) entry) : ∃ c', c.lruTouch p = .ok c' ∧
    Holds c' (p :: (pre ++ post)) entry := by
  obtain ⟨prev, next, searcher, rfl, hchain, hperm⟩ := h.shape
  have hp : (entry p).isSome := (h.live p).mpr (by simp)
  obtain ⟨⟨key, value⟩, hentry⟩ := Option.isSome_iff_exists.mp hp
  obtain ⟨hprev, hnext, hchain'⟩ := hchain.unlink h.nodup
  obtain ⟨hprevLive, hnextLive, hne, -⟩ := neighbours h.nodup h.live
  have hmiddle : (pre ++ p :: post).Perm (p :: (pre ++ post)) := List.perm_middle
  have hnodup := hmiddle.nodup_iff.mp h.nodup
  cases hlast : pre.getLast? with
  | none =>
    -- it is there
    obtain rfl := List.getLast?_eq_none_iff.mp hlast
    refine ⟨_, ?_, h⟩
    rw [lruTouch, bind_ok _ (load_ofMaps hentry)]
    dsimp only
    rw [hprev, hlast]
    rfl
  | some q =>
    have hhead : (pre ++ p :: post).head? = (pre ++ post).head? := by
      rw [List.head?_append, List.head?_append, Option.or_of_isSome, Option.or_of_isSome] <;>
        exact List.isSome_head?.mpr fun hnil => by rw [hnil] at hlast; cases hlast
    have htail : (if post.head?.isSome then (pre ++ p :: post).getLast? else pre.getLast?)
        = (p :: (pre ++ post)).getLast? := by
      cases post with
      | nil => simp [List.getLast?_cons, hlast]
      | cons r post => simp [List.getLast?_append, List.getLast?_cons]
    have hfrontLive : ∀ a ∈ (pre ++ post).head?, (entry a).isSome := fun a ha =>
      (h.live a).mpr (hmiddle.mem_iff.mpr (List.mem_cons_of_mem p (List.mem_of_head? ha)))
    rw [← hprev] at hprevLive hne
    rw [← hnext] at hnextLive
    refine ⟨_, ?_, ⟨_, _, searcher, rfl, Chain.push (List.nodup_cons.mp hnodup).2
      (List.nodup_cons.mp hnodup).1 hchain', hperm.trans hmiddle⟩, hnodup, fun a => ?_, ?_⟩
    · rw [lruTouch, bind_ok _ (load_ofMaps hentry)]
      dsimp only
      rw [hprev, hlast, Option.isNone_some, if_neg Bool.false_ne_true,
        bind_ok _ (unlinkTouched_ofMaps hentry hprevLive hnextLive hne), hprev, hnext, hhead, htail, hlast]
      exact linkFront_ofMaps hp hfrontLive
    · exact (h.live a).trans hmiddle.mem_iff
    · exact ((hmiddle.filterMap entry).map Prod.fst).nodup_iff.mp h.keys

/-- `lru_remove` takes a node out. -/
theorem Holds.lruRemove (h : Holds c (pre ++ p :: post) entry) : ∃ c', c.lruRemove p = .ok c' ∧
    Holds c' (pre ++ post) (Function.update entry p none) := by
  obtain ⟨prev, next, searcher, rfl, hchain, hperm⟩ := h.shape
  have hp : (entry p).isSome := (h.live p).mpr (by simp)
  obtain ⟨⟨key, value⟩, hentry⟩ := Option.isSome_iff_exists.mp hp
  obtain ⟨hprev, hnext, hchain'⟩ := hchain.unlink h.nodup
  obtain ⟨hprevLive, hnextLive, hne, hne'⟩ := neighbours h.nodup h.live
  have hmiddle : (pre ++ p :: post).Perm (p :: (pre ++ post)) := List.perm_middle
  have hnodup := List.nodup_cons.mp (hmiddle.nodup_iff.mp h.nodup)
  -- no other node has the key
  have hkeys := h.keys
  rw [filterMap_entry pre post hentry, List.map_append, List.map_cons, List.nodup_middle, List.nodup_cons,
    ← List.map_append, ← List.filterMap_append] at hkeys
  have hother : ∀ a ∈ pre ++ post, (entry a).map Prod.fst ≠ some key := by
    intro a ha heq
    obtain ⟨e, he, hkey⟩ := Option.map_eq_some_iff.mp heq
    exact hkeys.1 (List.mem_map.mpr ⟨e, List.mem_filterMap.mpr ⟨a, ha, he⟩, hkey⟩)
  have hsearcher : (searcher.filter fun q => decide ((entry q).map Prod.fst ≠ some key)).Perm (pre ++ post) := by
    have hfilter := (hperm.trans hmiddle).filter fun q => decide ((entry q).map Prod.fst ≠ some key)
    rwa [List.filter_cons_of_neg (by simp [hentry]),
      List.filter_eq_self.mpr fun a ha => decide_eq_true (hother a ha)] at hfilter
  have hhead : (if (pre ++ p :: post).head? = some p then post.head? else (pre ++ p :: post).head?)
      = (pre ++ post).head? := by
    cases pre with
    | nil => exact if_pos rfl
    | cons a pre =>
      refine if_neg fun heq => hnodup.1 ?_
      rw [← Option.some.inj heq]
      exact List.mem_cons_self
  have htail : (if (pre ++ p :: post).getLast? = some p then pre.getLast? else (pre ++ p :: post).getLast?)
      = (pre ++ post).getLast? := by
    rcases List.eq_nil_or_concat post with rfl | ⟨post, a, rfl⟩
    · rw [List.getLast?_concat, if_pos rfl, List.append_nil]
    · have hlast : ∀ l : List A, (l ++ post.concat a).getLast? = some a := fun l => by
        rw [List.concat_eq_append, ← List.append_assoc, List.getLast?_concat]
      have hlast' : (pre ++ p :: post.concat a).getLast? = some a := by
        rw [← List.singleton_append, ← List.append_assoc, hlast]
      rw [hlast', hlast, if_neg fun heq => hnodup.1 ?_]
      rw [← Option.some.inj heq]
      simp
  rw [← hprev] at hprevLive hne
  rw [← hnext] at hnextLive hne'
  refine ⟨_, lruRemove_ofMaps hentry hprevLive hnextLive hne hne', ⟨_, _, _, ?_, hchain', hsearcher⟩,
    hnodup.2, fun a => ?_, ?_⟩
  · rw [hprev, hnext, hhead, htail]
  · by_cases ha : a = p
    · subst ha
      rw [Function.update_self]
      exact iff_of_false (by simp) hnodup.1
    · rw [Function.update_of_ne ha, h.live a, hmiddle.mem_iff, List.mem_cons]
      exact or_iff_right ha
  · rw [filterMap_update none hnodup.1]
    exact hkeys.2

omit [DecidableEq K] [DecidableEq A] in
theorem Holds.load (h : Holds c xs entry) (hp : entry p = some (key, value)) :
    ∃ n, c.load p = .ok n ∧ n.value = value := by
  obtain ⟨prev, next, searcher, rfl, -, -⟩ := h.shape
  exact ⟨_, load_ofMaps hp, rfl⟩

omit [DecidableEq K] [DecidableEq A] in
/-- The address of a new node. -/
theorem Holds.fresh (h : Holds c xs entry) (hp : c.node p = none) : p ∉ xs := by
  intro hmem
  obtain ⟨⟨key, value⟩, hentry⟩ := Option.isSome_iff_exists.mp ((h.live p).mpr hmem)
  obtain ⟨n, hload, -⟩ := h.load hentry
  rw [LruCache.load, hp] at hload
  cases hload

omit [DecidableEq K] in
/-- A new value for a key. -/
theorem Holds.write (h : Holds c (pre ++ p :: post) entry) {old : V} (hp : entry p = some (key, old))
    (value : V) : ∃ c', c.write p (fun n => { n with value }) = .ok c' ∧
      Holds c' (pre ++ p :: post) (Function.update entry p (some (key, value))) := by
  obtain ⟨prev, next, searcher, rfl, hchain, hperm⟩ := h.shape
  have hwrite := @write_ofMaps _ _ _ _ _ prev next searcher (pre ++ p :: post).head?
    (pre ++ p :: post).getLast? _ _ _ hp fun n => { n with value }
  dsimp only at hwrite
  rw [Function.update_eq_self, Function.update_eq_self] at hwrite
  have hother := List.mem_append.not.mp h.not_mem
  refine ⟨_, hwrite, ⟨prev, next, searcher, rfl, hchain, hperm⟩, h.nodup, fun a => ?_, ?_⟩
  · by_cases ha : a = p
    · subst ha
      rw [Function.update_self]
      exact iff_of_true rfl (by simp)
    · rw [Function.update_of_ne ha]
      exact h.live a
  · have hkeys := h.keys
    rw [filterMap_entry pre post hp, List.map_append, List.map_cons] at hkeys
    rw [filterMap_entry pre post (Function.update_self p _ entry), List.map_append, List.map_cons,
      filterMap_update _ (not_or.mp hother).1, filterMap_update _ (not_or.mp hother).2]
    exact hkeys

/-- A new node comes in front. -/
theorem Holds.push (h : Holds c xs entry) {addr : A} (hfresh : c.node addr = none)
    (hkey : ∀ v, (key, v) ∉ xs.filterMap entry) (value : V) :
    ∃ c', lruPush { c with node := Function.update c.node addr (some ⟨key, value, none, none⟩) } addr
        = .ok c' ∧ Holds c' (addr :: xs) (Function.update entry addr (some (key, value))) := by
  have haddr := h.fresh hfresh
  obtain ⟨prev, next, searcher, rfl, hchain, hperm⟩ := h.shape
  have hne : ∀ a ∈ xs, a ≠ addr := fun a ha heq => haddr (heq ▸ ha)
  have hlive : ∀ a, (Function.update entry addr (some (key, value)) a).isSome ↔ a ∈ addr :: xs := by
    intro a
    by_cases ha : a = addr
    · subst ha
      rw [Function.update_self]
      exact iff_of_true rfl List.mem_cons_self
    · rw [Function.update_of_ne ha, h.live a, List.mem_cons]
      exact (or_iff_right ha).symm
  have hold : ∀ a ∈ xs, (Function.update entry addr (some (key, value)) a).isSome := fun a ha =>
    (hlive a).mpr (List.mem_cons_of_mem addr ha)
  have hother : ∀ a ∈ xs, ∀ v, Function.update entry addr (some (key, value)) a ≠ some (key, v) := by
    intro a ha v heq
    rw [Function.update_of_ne (hne a ha)] at heq
    exact hkey v (List.mem_filterMap.mpr ⟨a, ha, heq⟩)
  have hchain' : Chain (Function.update prev addr none) (Function.update next addr none) none xs none := by
    refine hchain.congr fun a ha => ?_
    rw [Function.update_of_ne (hne a ha), Function.update_of_ne (hne a ha)]
    exact ⟨rfl, rfl⟩
  -- the first node of all is the last one, too
  have htail : (if xs.getLast?.isNone then some addr else xs.getLast?) = (addr :: xs).getLast? := by
    rw [List.getLast?_cons]
    cases xs.getLast? <;> rfl
  refine ⟨_, ?_, ⟨_, _, addr :: searcher, rfl, Chain.push h.nodup haddr hchain', hperm.cons addr⟩,
    List.nodup_cons.mpr ⟨haddr, h.nodup⟩, hlive, ?_⟩
  · rw [new_ofMaps, ← htail]
    exact lruPush_ofMaps (Function.update_self addr _ entry)
      (fun a ha => hold a (List.mem_of_head? ha)) (fun a ha => hold a (hperm.mem_iff.mp ha))
      fun a ha => hother a (hperm.mem_iff.mp ha)
  · rw [List.filterMap_cons_some (Function.update_self addr _ entry), filterMap_update _ haddr,
      List.map_cons, List.nodup_cons]
    refine ⟨fun hmem => ?_, h.keys⟩
    obtain ⟨⟨k, v⟩, he, rfl⟩ := List.mem_map.mp hmem
    exact hkey v he

/-! ## The operations -/

/-- The nodes of the cache have these entries, in this order. -/
def Represents (c : LruCache K V A) (es : List (K × V)) : Prop :=
  ∃ xs entry, Holds c xs entry ∧ xs.filterMap entry = es

/-- What `get` does to the entries. -/
def touched (key : K) (es : List (K × V)) : List (K × V) :=
  match lookup key es with
  | some value => used key value es
  | none => es

variable {es : List (K × V)}

omit [DecidableEq K] [DecidableEq A] in
theorem represents_empty : Represents (empty : LruCache K V A) [] := by
  refine ⟨[], fun _ => none, ⟨⟨fun _ => none, fun _ => none, [], rfl, trivial, List.Perm.refl _⟩,
    List.nodup_nil, fun a => ?_, List.nodup_nil⟩, rfl⟩
  exact iff_of_false (by simp) List.not_mem_nil

omit [DecidableEq A] in
/-- A key that is found. -/
theorem entries_at (h : Holds c (pre ++ p :: post) entry) (hp : entry p = some (key, value)) :
    lookup key ((pre ++ p :: post).filterMap entry) = some value ∧
      forgotten key ((pre ++ p :: post).filterMap entry) = (pre ++ post).filterMap entry := by
  have hkeys := h.keys
  rw [filterMap_entry pre post hp] at hkeys ⊢
  rw [List.filterMap_append]
  exact ⟨lookup_append hkeys, forgotten_append hkeys⟩

/-- `get` answers as the list of entries does, and moves the entry to the front. -/
theorem get_spec (h : Represents c es) (key : K) :
    ∃ c', c.get key = .ok (lookup key es, c') ∧ Represents c' (touched key es) := by
  obtain ⟨xs, entry, hc, rfl⟩ := h
  rcases hc.find key with ⟨pre, p, post, v, hfind, rfl, hp⟩ | ⟨hfind, hnot⟩
  · obtain ⟨hlookup, hforgotten⟩ := entries_at hc hp
    obtain ⟨c', htouch, hc'⟩ := hc.touch
    obtain ⟨n, hload, hvalue⟩ := hc'.load hp
    refine ⟨c', ?_, _, _, hc', ?_⟩
    · rw [get, bind_ok _ hfind, hlookup, ← hvalue]
      exact (bind_ok _ htouch).trans (bind_ok _ hload)
    · rw [touched, hlookup, List.filterMap_cons_some hp]
      exact congrArg _ hforgotten.symm
  · refine ⟨c, ?_, xs, entry, hc, ?_⟩
    · rw [get, bind_ok _ hfind, lookup_of_absent hnot]
    · rw [touched, lookup_of_absent hnot]

/-- `put` makes the entry the first one, and there is no other one for its key. -/
theorem put_spec (h : Represents c es) (key : K) (value : V) {addr : A} (hfresh : c.node addr = none) :
    ∃ c', c.put key value addr = .ok c' ∧ Represents c' (used key value es) := by
  obtain ⟨xs, entry, hc, rfl⟩ := h
  rcases hc.find key with ⟨pre, p, post, v, hfind, rfl, hp⟩ | ⟨hfind, hnot⟩
  · obtain ⟨-, hforgotten⟩ := entries_at hc hp
    obtain ⟨c₁, hwrite, hc₁⟩ := hc.write hp value
    obtain ⟨c', htouch, hc'⟩ := hc₁.touch
    have hp₁ := Function.update_self p (some (key, value)) entry
    refine ⟨c', ?_, _, _, hc', ?_⟩
    · rw [put, bind_ok _ hfind]
      exact (bind_ok _ hwrite).trans htouch
    · rw [List.filterMap_cons_some hp₁, filterMap_update _ hc.not_mem, used, hforgotten]
  · obtain ⟨c', hpush, hc'⟩ := hc.push hfresh hnot value
    refine ⟨c', ?_, _, _, hc', ?_⟩
    · rw [put, bind_ok _ hfind]
      dsimp only
      rw [hfresh, Option.isSome_none, if_neg Bool.false_ne_true]
      exact hpush
    · rw [List.filterMap_cons_some (Function.update_self addr _ entry),
        filterMap_update _ (hc.fresh hfresh), used,
        forgotten_of_absent hnot]

/-- `remove` forgets the entry, and the others keep their order. -/
theorem remove_spec (h : Represents c es) (key : K) :
    ∃ c', c.remove key = .ok c' ∧ Represents c' (forgotten key es) := by
  obtain ⟨xs, entry, hc, rfl⟩ := h
  rcases hc.find key with ⟨pre, p, post, v, hfind, rfl, hp⟩ | ⟨hfind, hnot⟩
  · obtain ⟨-, hforgotten⟩ := entries_at hc hp
    obtain ⟨c', hremove, hc'⟩ := hc.lruRemove
    refine ⟨c', ?_, _, _, hc', ?_⟩
    · rw [remove, bind_ok _ hfind]
      exact hremove
    · rw [filterMap_update _ hc.not_mem, hforgotten]
  · refine ⟨c, ?_, xs, entry, hc, (forgotten_of_absent hnot).symm⟩
    rw [remove, bind_ok _ hfind]

omit [DecidableEq K] [DecidableEq A] in
/-- A walk along a chain. -/
theorem foreachLoop_chain {along : ListNode K V A → Option A} {link back : A → Option A}
    (hnode : ∀ p key value, entry p = some (key, value) →
      ∃ n, c.load p = .ok n ∧ n.key = key ∧ n.value = value ∧ along n = link p)
    (func : K → V → Bool) : ∀ {xs : List A} {fuel : Nat} {b : Option A}, (∀ a ∈ xs, (entry a).isSome) →
      Chain back link b xs none → xs.length ≤ fuel →
      c.foreachLoop along func fuel xs.head? = .ok (visited func (xs.filterMap entry))
  | [], fuel, _, _, _, _ => by
    cases fuel <;> rfl
  | a :: xs, fuel, b, hlive, ⟨_, hlink, hrest⟩, hfuel => by
    rw [List.forall_mem_cons] at hlive
    obtain ⟨⟨key, value⟩, hentry⟩ := Option.isSome_iff_exists.mp hlive.1
    obtain ⟨n, hload, rfl, rfl, halong⟩ := hnode a key value hentry
    obtain ⟨fuel, rfl⟩ : ∃ k, fuel = k + 1 := ⟨fuel - 1, by rw [List.length_cons] at hfuel; omega⟩
    rw [Option.or_none] at hlink
    have hroom : xs.length ≤ fuel := by
      rw [List.length_cons] at hfuel
      omega
    have ih := foreachLoop_chain hnode func hlive.2 hrest hroom
    rw [List.head?_cons, foreachLoop, bind_ok _ hload, List.filterMap_cons_some hentry, visited]
    dsimp only
    split
    · rw [halong, hlink, bind_ok _ ih]
    · rfl

omit [DecidableEq K] [DecidableEq A] in
/-- Both directions visit the entries until `func` says no. -/
theorem foreach_spec (h : Represents c es) (func : K → V → Bool) :
    c.foreach func = .ok (visited func es) ∧ c.foreachReverse func = .ok (visited func es.reverse) := by
  obtain ⟨xs, entry, hc, rfl⟩ := h
  obtain ⟨prev, next, searcher, rfl, hchain, hperm⟩ := hc.shape
  have hlive : ∀ a ∈ xs, (entry a).isSome := fun a ha => (hc.live a).mpr ha
  have hcount : xs.length ≤ searcher.length := Nat.le_of_eq hperm.length_eq.symm
  constructor
  · exact foreachLoop_chain (fun p key value hp => ⟨_, load_ofMaps hp, rfl, rfl, rfl⟩) func
      hlive hchain hcount
  · rw [← List.filterMap_reverse, foreachReverse]
    show foreachLoop _ ListNode.prev func searcher.length xs.getLast? = _
    rw [← List.head?_reverse]
    refine foreachLoop_chain (fun p key value hp => ⟨_, load_ofMaps hp, rfl, rfl, rfl⟩) func
      (fun a ha => hlive a (List.mem_reverse.mp ha)) hchain.reverse ?_
    rwa [List.length_reverse]

end Invariant

/-! ## The order of use -/

section Order

variable {K V : Type} [DecidableEq K] {es : List (K × V)} {content : K → Option V} {now : Nat}
  {lastUse : K → Nat} {key : K} {value : V}

/-- The entries are the contents, the one that was used last in front. -/
structure Ordered (es : List (K × V)) (content : K → Option V) (now : Nat) (lastUse : K → Nat) : Prop where
  keys : (es.map Prod.fst).Nodup
  content_iff : ∀ key value, content key = some value ↔ (key, value) ∈ es
  /-- What was used later is further in front. -/
  order : es.Pairwise fun a b => lastUse b.1 < lastUse a.1
  /-- Every use lies in the past. -/
  past : ∀ e ∈ es, lastUse e.1 < now

theorem mem_forgotten {e : K × V} : e ∈ forgotten key es ↔ e ∈ es ∧ e.1 ≠ key := by
  rw [forgotten, List.mem_filter, decide_eq_true_iff]

/-- What the list finds is the content. -/
theorem Ordered.lookup_eq (h : Ordered es content now lastUse) (key : K) : lookup key es = content key := by
  cases hc : content key with
  | none =>
    refine lookup_of_absent fun v hv => ?_
    rw [(h.content_iff key v).mpr hv] at hc
    cases hc
  | some v =>
    obtain ⟨l, r, rfl⟩ := List.append_of_mem ((h.content_iff key v).mp hc)
    exact lookup_append h.keys

omit [DecidableEq K] in
/-- Nothing is used. -/
theorem Ordered.idle (h : Ordered es content now lastUse) : Ordered es content (now + 1) lastUse :=
  ⟨h.keys, h.content_iff, h.order, fun e he => Nat.lt_succ_of_lt (h.past e he)⟩

/-- The order of the others does not change. -/
theorem Ordered.forget (h : Ordered es content now lastUse) (key : K) :
    Ordered (forgotten key es) (Function.update content key none) (now + 1) lastUse := by
  refine ⟨h.keys.sublist (List.filter_sublist.map _), fun k v => ?_, h.order.sublist List.filter_sublist,
    fun e he => Nat.lt_succ_of_lt (h.past e (mem_forgotten.mp he).1)⟩
  rw [mem_forgotten, ← h.content_iff]
  by_cases hk : k = key
  · subst hk
    rw [Function.update_self]
    simp
  · rw [Function.update_of_ne hk]
    exact (and_iff_left hk).symm

/-- A key is used: it comes in front. -/
theorem Ordered.use (h : Ordered es content now lastUse) (key : K) (value : V) :
    Ordered (used key value es) (Function.update content key (some value)) (now + 1)
      (Function.update lastUse key now) := by
  -- only the time of `key` changes
  have hother : ∀ e ∈ forgotten key es, Function.update lastUse key now e.1 = lastUse e.1 := fun e he => by
    rw [Function.update_of_ne (mem_forgotten.mp he).2]
  have hforget := h.forget key
  refine ⟨?_, fun k v => ?_, ?_, ?_⟩
  · rw [used, List.map_cons, List.nodup_cons]
    refine ⟨fun hmem => ?_, hforget.keys⟩
    obtain ⟨e, he, hkey⟩ := List.mem_map.mp hmem
    exact (mem_forgotten.mp he).2 hkey
  · rw [used, List.mem_cons, mem_forgotten, ← h.content_iff]
    by_cases hk : k = key
    · subst hk
      rw [Function.update_self, Option.some.injEq, Prod.mk.injEq]
      simp [eq_comm]
    · rw [Function.update_of_ne hk, Prod.mk.injEq]
      simp [hk]
  · rw [used, List.pairwise_cons]
    constructor
    · intro e he
      rw [hother e he, Function.update_self]
      exact h.past e (mem_forgotten.mp he).1
    · refine hforget.order.imp_of_mem fun ha hb hlt => ?_
      rwa [hother _ ha, hother _ hb]
  · rw [used, List.forall_mem_cons]
    constructor
    · rw [Function.update_self]
      exact Nat.lt_succ_self now
    · intro e he
      rw [hother e he]
      exact hforget.past e he

/-- A key that is looked up: nothing has changed if it is not there. -/
theorem Ordered.touch (h : Ordered es content now lastUse) (key : K) :
    Ordered (touched key es) content (now + 1) (Function.update lastUse key now) := by
  rw [touched]
  cases hlookup : lookup key es with
  | some value =>
    have huse := h.use key value
    rwa [← hlookup, h.lookup_eq, Function.update_eq_self] at huse
  | none =>
    have hsame : ∀ e ∈ es, Function.update lastUse key now e.1 = lastUse e.1 := by
      intro e he
      have hne : e.1 ≠ key := by
        rintro rfl
        rw [h.lookup_eq, (h.content_iff e.1 e.2).mpr he] at hlookup
        cases hlookup
      rw [Function.update_of_ne hne]
    refine ⟨h.keys, h.content_iff, h.order.imp_of_mem fun ha hb hlt => ?_, fun e he => ?_⟩
    · rwa [hsame _ ha, hsame _ hb]
    · rw [hsame e he]
      exact Nat.lt_succ_of_lt (h.past e he)

omit [DecidableEq K] in
/-- The last entry is the one whose use is longest ago. -/
theorem Ordered.last (h : Ordered es content now lastUse) (hlast : es.getLast? = some (key, value)) :
    content key = some value ∧ ∀ key', content key' ≠ none → lastUse key ≤ lastUse key' := by
  obtain ⟨l, rfl⟩ := List.getLast?_eq_some_iff.mp hlast
  refine ⟨(h.content_iff key value).mpr (by simp), fun key' hkey' => ?_⟩
  obtain ⟨v, hv⟩ := Option.ne_none_iff_exists'.mp hkey'
  rcases List.mem_append.mp ((h.content_iff key' v).mp hv) with hmem | hmem
  · exact Nat.le_of_lt ((List.pairwise_append.mp h.order).2.2 _ hmem _ (List.mem_singleton_self _))
  · have hkey : key' = key := (Prod.mk.inj (List.mem_singleton.mp hmem)).1
    exact Nat.le_of_eq (congrArg lastUse hkey.symm)

end Order

/-! ## Runs -/

section Runs

variable {K V A : Type} [DecidableEq K] [DecidableEq A]

/-- The calls; `put` has the address that `new` gives. -/
inductive LruOp (K V A : Type) where
  | get (key : K)
  /-- `new` gives the address, if there is a new node. -/
  | put (key : K) (value : V) (addr : A)
  | remove (key : K)
  | pop
  | foreach (func : K → V → Bool)
  | foreachReverse (func : K → V → Bool)

inductive LruAnswer (K V : Type) where
  | value (value : Option V)
  | done
  | visited (entries : List (K × V))

/-- The cache, with what was put last for each key that has not been removed, the number of operations,
    and the one in which a key was used last.  The code has the first of these. -/
structure UsedCache (K V A : Type) where
  cache : LruCache K V A
  content : K → Option V
  now : Nat
  lastUse : K → Nat

def UsedCache.initial : UsedCache K V A := ⟨empty, fun _ => none, 0, fun _ => 0⟩

/-- `pop` does nothing yet. -/
def runOp (c : LruCache K V A) : LruOp K V A → Except LruFault (LruAnswer K V × LruCache K V A)
  | .get key => do
    let (value, c) ← c.get key
    .ok (.value value, c)
  | .put key value addr => do
    let c ← c.put key value addr
    .ok (.done, c)
  | .remove key => do
    let c ← c.remove key
    .ok (.done, c)
  | .pop => .ok (.value none, c)
  | .foreach func => do
    let entries ← c.foreach func
    .ok (.visited entries, c)
  | .foreachReverse func => do
    let entries ← c.foreachReverse func
    .ok (.visited entries, c)

def contentAfter (content : K → Option V) : LruOp K V A → K → Option V
  | .put key value _ => Function.update content key (some value)
  | .remove key => Function.update content key none
  | _ => content

def lastUseAfter (now : Nat) (lastUse : K → Nat) : LruOp K V A → K → Nat
  | .get key => Function.update lastUse key now
  | .put key _ _ => Function.update lastUse key now
  | _ => lastUse

def UsedCache.step (s : UsedCache K V A) (op : LruOp K V A) :
    Except LruFault (LruAnswer K V × UsedCache K V A) := do
  let (answer, cache) ← runOp s.cache op
  .ok (answer, ⟨cache, contentAfter s.content op, s.now + 1, lastUseAfter s.now s.lastUse op⟩)

/-- `new` gives an address that is free. -/
def UsedCache.Admits (s : UsedCache K V A) : LruOp K V A → Prop
  | .put _ _ addr => s.cache.node addr = none
  | _ => True

/-- The answer of a map with its entries in the order of use. -/
def answerOf (es : List (K × V)) (content : K → Option V) : LruOp K V A → LruAnswer K V
  | .get key => .value (content key)
  | .put _ _ _ => .done
  | .remove _ => .done
  | .pop => .value none
  | .foreach func => .visited (visited func es)
  | .foreachReverse func => .visited (visited func es.reverse)

/-- The links of the nodes. -/
def prevOf (c : LruCache K V A) (p : A) : Option A := (c.node p).bind ListNode.prev

def nextOf (c : LruCache K V A) (p : A) : Option A := (c.node p).bind ListNode.next

/-- List and hash set agree: these are the nodes from front to tail, with these entries. -/
structure Agrees (c : LruCache K V A) (nodes : List A) (es : List (K × V)) : Prop where
  nodup : nodes.Nodup
  /-- There are no other nodes. -/
  node_iff : ∀ a, (c.node a).isSome ↔ a ∈ nodes
  /-- The links lead through them in this order. -/
  linked : Chain c.prevOf c.nextOf none nodes none
  front : c.lruFront = nodes.head?
  tail : c.lruTail = nodes.getLast?
  /-- The hash set has them, in some order. -/
  searcher : c.searcher.Perm nodes
  /-- The nodes have the entries. -/
  entries : nodes.map (fun a => (c.node a).map fun n => (n.key, n.value)) = es.map some
  count : c.count = es.length

variable {c : LruCache K V A} {es : List (K × V)}

omit [DecidableEq K] [DecidableEq A] in
/-- The abstract list is the list of nodes. -/
theorem Represents.agrees (h : Represents c es) : ∃ nodes, Agrees c nodes es := by
  obtain ⟨xs, entry, hc, rfl⟩ := h
  obtain ⟨prev, next, searcher, rfl, hchain, hperm⟩ := hc.shape
  have hmap : ∀ ys : List A, (∀ a ∈ ys, (entry a).isSome) → ys.map entry = (ys.filterMap entry).map some := by
    intro ys hys
    induction ys with
    | nil => rfl
    | cons a ys ih =>
      rw [List.forall_mem_cons] at hys
      obtain ⟨e, he⟩ := Option.isSome_iff_exists.mp hys.1
      rw [List.map_cons, List.filterMap_cons_some he, List.map_cons, he, ih hys.2]
  have hentries := hmap xs fun a ha => (hc.live a).mpr ha
  refine ⟨xs, hc.nodup, fun a => ?_, hchain.congr fun a ha => ?_, rfl, rfl, hperm, ?_, ?_⟩
  · rw [← hc.live a, ofMaps]
    exact Bool.eq_iff_iff.mp Option.isSome_map
  · obtain ⟨⟨key, value⟩, hentry⟩ := Option.isSome_iff_exists.mp ((hc.live a).mpr ha)
    rw [prevOf, nextOf, node_ofMaps hentry]
    exact ⟨rfl, rfl⟩
  · rw [← hentries]
    refine List.map_congr_left fun a ha => ?_
    obtain ⟨⟨key, value⟩, hentry⟩ := Option.isSome_iff_exists.mp ((hc.live a).mpr ha)
    rw [node_ofMaps hentry, hentry]
    rfl
  · have hlen := congrArg List.length hentries
    rw [List.length_map, List.length_map] at hlen
    exact hperm.length_eq.trans hlen

omit [DecidableEq K] [DecidableEq A] in
theorem ordered_initial :
    Ordered [] (UsedCache.initial : UsedCache K V A).content 0 (UsedCache.initial : UsedCache K V A).lastUse := by
  refine ⟨List.nodup_nil, fun key value => ?_, List.Pairwise.nil, fun e he => absurd he List.not_mem_nil⟩
  simp [UsedCache.initial]

/-- **Step of the cache.** -/
theorem runOp_spec {s : UsedCache K V A} (hc : Represents s.cache es)
    (ho : Ordered es s.content s.now s.lastUse) {op : LruOp K V A} (hop : s.Admits op) :
    ∃ c' es', runOp s.cache op = .ok (answerOf es s.content op, c') ∧ Represents c' es' ∧
      Ordered es' (contentAfter s.content op) (s.now + 1) (lastUseAfter s.now s.lastUse op) := by
  cases op with
  | get key =>
    obtain ⟨c', hget, hc'⟩ := get_spec hc key
    rw [ho.lookup_eq] at hget
    exact ⟨c', touched key es, bind_ok _ hget, hc', ho.touch key⟩
  | put key value addr =>
    obtain ⟨c', hput, hc'⟩ := put_spec hc key value hop
    exact ⟨c', used key value es, bind_ok _ hput, hc', ho.use key value⟩
  | remove key =>
    obtain ⟨c', hremove, hc'⟩ := remove_spec hc key
    exact ⟨c', forgotten key es, bind_ok _ hremove, hc', ho.forget key⟩
  | pop => exact ⟨s.cache, es, rfl, hc, ho.idle⟩
  | foreach func => exact ⟨s.cache, es, bind_ok _ (foreach_spec hc func).1, hc, ho.idle⟩
  | foreachReverse func => exact ⟨s.cache, es, bind_ok _ (foreach_spec hc func).2, hc, ho.idle⟩

/-- **Step.** -/
theorem step_spec {s : UsedCache K V A} (hc : Represents s.cache es)
    (ho : Ordered es s.content s.now s.lastUse) {op : LruOp K V A} (hop : s.Admits op) :
    ∃ s' es', s.step op = .ok (answerOf es s.content op, s') ∧ Represents s'.cache es' ∧
      Ordered es' s'.content s'.now s'.lastUse := by
  obtain ⟨c', es', hrun, hc', ho'⟩ := runOp_spec hc ho hop
  refine ⟨⟨c', contentAfter s.content op, s.now + 1, lastUseAfter s.now s.lastUse op⟩, es', ?_, hc', ho'⟩
  exact bind_ok (fun r => Except.ok (r.1, UsedCache.mk r.2 (contentAfter s.content op) (s.now + 1)
    (lastUseAfter s.now s.lastUse op))) hrun

/-- **The cache is a map in the order of use.**  After any run the list and the hash set agree, the
    entries are what was put and not removed, the one used last in front and the one whose use is longest
    ago at the tail, and the next operation answers as such a map. -/
theorem lru_cache_ordered {s : UsedCache K V A}
    (h : Reachable UsedCache.step UsedCache.Admits UsedCache.initial s) :
    ∃ nodes es, Agrees s.cache nodes es ∧ Ordered es s.content s.now s.lastUse ∧
      (∀ key value, es.getLast? = some (key, value) →
        ∀ key', s.content key' ≠ none → s.lastUse key ≤ s.lastUse key') ∧
      ∀ op, s.Admits op → ∃ s', s.step op = .ok (answerOf es s.content op, s') := by
  have hinv : ∃ es, Represents s.cache es ∧ Ordered es s.content s.now s.lastUse := by
    refine h.invariant (I := fun s => ∃ es, Represents s.cache es ∧ Ordered es s.content s.now s.lastUse)
      ⟨[], represents_empty, ordered_initial⟩ fun s op answer s' hs hop hstep => ?_
    obtain ⟨es, hc, ho⟩ := hs
    obtain ⟨s₁, es', hstep₁, hc', ho'⟩ := step_spec hc ho hop
    rw [hstep] at hstep₁
    obtain ⟨-, rfl⟩ := Prod.mk.inj (Except.ok.inj hstep₁)
    exact ⟨es', hc', ho'⟩
  obtain ⟨es, hc, ho⟩ := hinv
  obtain ⟨nodes, hagrees⟩ := hc.agrees
  refine ⟨nodes, es, hagrees, ho, fun key value hlast => (ho.last hlast).2, fun op hop => ?_⟩
  obtain ⟨s', -, hstep, -⟩ := step_spec hc ho hop
  exact ⟨s', hstep⟩

/-- Three keys, the first of which is used again and the second removed. -/
theorem lru_cache_ordered_three : ∃ (s : UsedCache Nat Nat Nat) (nodes : List Nat) (es : List (Nat × Nat)),
    s.content 7 = some 8 ∧ s.content 9 = none ∧ s.content 11 = some 12 ∧
    Agrees s.cache nodes es ∧ Ordered es s.content s.now s.lastUse ∧
      (∀ key value, es.getLast? = some (key, value) →
        ∀ key', s.content key' ≠ none → s.lastUse key ≤ s.lastUse key') ∧
      ∀ op, s.Admits op → ∃ s', s.step op = .ok (answerOf es s.content op, s') := by
  have hinit : Reachable UsedCache.step UsedCache.Admits UsedCache.initial
    (UsedCache.initial : UsedCache Nat Nat Nat) := .init
  have hput := ((hinit.next (.put 7 8 0) rfl rfl).next (.put 9 10 1) rfl rfl).next (.put 11 12 2) rfl rfl
  have h := (hput.next (.get 7) trivial rfl).next (.remove 9) trivial rfl
  obtain ⟨nodes, es, hordered⟩ := lru_cache_ordered h
  exact ⟨_, nodes, es, rfl, rfl, rfl, hordered⟩

end Runs

end LruCache

end Miniob.Cache
