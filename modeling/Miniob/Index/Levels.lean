/-
  The internal levels of the B+ tree, one list of nodes per level.

  A level is cut out of the level below it: the items of its nodes, concatenated, are the (separator,
  page) pairs of the nodes below.  `Levels zeroKey t Z Ls` says that the pages of `t` hold the levels
  `Ls` over the pairs `Z`, from the level just above `Z` up to the root.  Seen this way an insertion
  or a deletion is an edit of one list, and the parent's edit is the same edit one level up.

  Separators: the first item of a node repeats the separator that the level above stores for it,
  and on the left spine of the tree it is the zero key `create_new_root` wrote.  No comparison reads
  the latter, but every other first key is a live separator, which `coalesce_or_redistribute`
  depends on when it looks a node up by its last key.
-/
import Miniob.Index.Pages

namespace Miniob.Index

open Miniob.Common Miniob.Storage

variable {K V β : Type}

/-! ## Nodes and levels -/

/-- A node together with the separator stored for it in the level above. -/
structure Seg (K β : Type) where
  sep : K
  page : PageNum
  items : List (K × β)

namespace Seg

/-- The item that stands for the node in its parent. -/
def head (s : Seg K β) : K × PageNum := (s.sep, s.page)

def keys (s : Seg K β) : List K := s.items.map Prod.fst

@[simp] theorem head_fst (s : Seg K β) : s.head.1 = s.sep := rfl

@[simp] theorem head_snd (s : Seg K β) : s.head.2 = s.page := rfl

end Seg

/-- The nodes of one internal level, from left to right. -/
abbrev Level (K : Type) := List (Seg K PageNum)

/-- The pages of some levels. -/
def pages (Ls : List (Level K)) : List PageNum := Ls.flatMap fun L => L.map Seg.page

@[simp] theorem pages_nil : pages ([] : List (Level K)) = [] := rfl

@[simp] theorem pages_cons (L : Level K) (Ls : List (Level K)) :
    pages (L :: Ls) = L.map Seg.page ++ pages Ls := rfl

theorem map_snd_head (L : List (Seg K β)) : (L.map Seg.head).map Prod.snd = L.map Seg.page := by
  rw [List.map_map]
  rfl

/-- The pages of a level after a fresh page has been added next to one of its nodes. -/
theorem nodup_insert_page {A B : List (Seg K β)} {s : Seg K β} {ps : List PageNum} {k : K}
    {fresh : PageNum} (h : ((A ++ s :: B).map Seg.page ++ ps).Nodup)
    (hf : fresh ∉ (A ++ s :: B).map Seg.page ++ ps) :
    ((A.map Seg.head ++ s.head :: (k, fresh) :: B.map Seg.head).map Prod.snd ++ ps).Nodup := by
  have hperm : ((A.map Seg.head ++ s.head :: (k, fresh) :: B.map Seg.head).map Prod.snd ++ ps).Perm
      (fresh :: ((A ++ s :: B).map Seg.page ++ ps)) := by
    simp only [List.map_append, List.map_cons, map_snd_head]
    rw [show A.map Seg.page ++ s.head.2 :: fresh :: B.map Seg.page
      = (A.map Seg.page ++ [s.page]) ++ fresh :: B.map Seg.page by simp, List.append_assoc,
      List.cons_append]
    exact List.perm_middle.trans (by simp)
  exact hperm.nodup_iff.mpr (List.nodup_cons.mpr ⟨hf, h⟩)

/-- The page of node `x` holds its items, its children point back to it, and its first key is the
    separator stored for it. -/
structure NodeOK (t : BplusTree K V) (x : Seg K PageNum) : Prop where
  body : t.body x.page = some (.internal x.items)
  parent : ∀ c ∈ x.items, t.parentOf c.2 = some x.page
  sep : x.items.head?.map Prod.fst = some x.sep

theorem NodeOK.items_ne_nil {t : BplusTree K V} {x : Seg K PageNum} (h : NodeOK t x) :
    x.items ≠ [] := by
  intro hn
  have := h.sep
  rw [hn] at this
  cases this

theorem NodeOK.items_eq {t : BplusTree K V} {x : Seg K PageNum} (h : NodeOK t x) :
    ∃ c rest, x.items = (x.sep, c) :: rest := by
  have hs := h.sep
  cases hi : x.items with
  | nil => exact absurd hi h.items_ne_nil
  | cons c rest =>
    rw [hi, List.head?_cons, Option.map_some, Option.some.injEq] at hs
    exact ⟨c.2, rest, by rw [← hs]⟩

/-- `Ls` are the internal levels over the items `Z`; the last one holds the root. -/
def Levels (zeroKey : K) (t : BplusTree K V) : List (K × PageNum) → List (Level K) → Prop
  | Z, [] => Z = [(zeroKey, t.fileHeader.rootPage)] ∧
      t.parentOf t.fileHeader.rootPage = some bpInvalidPageNum
  | Z, L :: Ls => (∀ x ∈ L, NodeOK t x) ∧ L.flatMap Seg.items = Z ∧
      Levels zeroKey t (L.map Seg.head) Ls

/-- Every node has at least half of the maximum (the root: two children), node `weak` perhaps one
    less, and at most the maximum. -/
def SizesOK (maxSize : Nat) (weak : Option PageNum) (L : Level K) (isRoot : Bool) : Prop :=
  ∀ x ∈ L, (if isRoot then 2 else maxSize / 2)
      ≤ x.items.length + (if weak = some x.page then 1 else 0) ∧ x.items.length ≤ maxSize

/-- The sizes of all levels. -/
def Sizes (maxSize : Nat) : List (Level K) → Prop
  | [] => True
  | L :: Ls => SizesOK maxSize none L Ls.isEmpty ∧ Sizes maxSize Ls

theorem SizesOK.of_half {maxSize : Nat} {L : Level K} (hmax : 4 ≤ maxSize) (isRoot : Bool)
    (h : ∀ x ∈ L, maxSize / 2 ≤ x.items.length ∧ x.items.length ≤ maxSize) :
    SizesOK maxSize none L isRoot := by
  intro x hx
  have := h x hx
  split <;> omega

/-- A node keeps its number of items. -/
theorem SizesOK.set {maxSize : Nat} {PA PB : Level K} {y y' : Seg K PageNum} {b : Bool}
    (h : SizesOK maxSize none (PA ++ y :: PB) b) (hlen : y'.items.length = y.items.length) :
    SizesOK maxSize none (PA ++ y' :: PB) b := by
  intro z hz
  rcases List.mem_append.mp hz with hz | hz
  · exact h z (by simp [hz])
  rcases List.mem_cons.mp hz with rfl | hz
  · simpa [hlen] using h y (by simp)
  · exact h z (by simp [hz])

/-- A node loses an item. -/
theorem SizesOK.lose {maxSize : Nat} {PA PB : Level K} {y y' : Seg K PageNum} {b : Bool}
    (h : SizesOK maxSize none (PA ++ y :: PB) b) (hpage : y'.page = y.page)
    (hlen : y'.items.length + 1 = y.items.length) :
    SizesOK maxSize (some y.page) (PA ++ y' :: PB) b := by
  have hside : ∀ z, z ∈ PA ∨ z ∈ PB → (if b then 2 else maxSize / 2) ≤ z.items.length +
      (if some y.page = some z.page then 1 else 0) ∧ z.items.length ≤ maxSize := by
    intro z hz
    have := h z (by rcases hz with hz | hz <;> simp [hz])
    simp only [reduceCtorEq, if_false] at this
    exact ⟨by omega, this.2⟩
  intro z hz
  rcases List.mem_append.mp hz with hz | hz
  · exact hside z (Or.inl hz)
  rcases List.mem_cons.mp hz with rfl | hz
  · have := h y (by simp)
    simp only [reduceCtorEq, if_false] at this
    simp only [hpage, if_true]
    omega
  · exact hside z (Or.inr hz)

/-! ## Frame -/

/-- What a change of the levels `Ls` above the pages `ps` leaves alone. -/
structure LevelsFrame (t t' : BplusTree K V) (ps : List PageNum) (Ls Ls' : List (Level K)) :
    Prop where
  internalMaxSize : t'.fileHeader.internalMaxSize = t.fileHeader.internalMaxSize
  leafMaxSize : t'.fileHeader.leafMaxSize = t.fileHeader.leafMaxSize
  body : ∀ p, (t.body p).isSome → p ∉ pages Ls → t'.body p = t.body p
  parentOf : ∀ p, (t.body p).isSome → p ∉ ps → p ∉ pages Ls → t'.parentOf p = t.parentOf p
  fresh : ∀ p ∈ pages Ls', p ∈ pages Ls ∨ t.body p = none
  nodup : (pages Ls').Nodup

section Frame

variable {zeroKey : K} {t t' : BplusTree K V}

theorem NodeOK.congr {x : Seg K PageNum} (h : NodeOK t x) (hb : t'.body x.page = t.body x.page)
    (hp : ∀ c ∈ x.items, t'.parentOf c.2 = t.parentOf c.2) : NodeOK t' x :=
  ⟨hb.trans h.body, fun c hc => (hp c hc).trans (h.parent c hc), h.sep⟩

/-- The levels only read the bodies of their own nodes, the parent fields of these and of the
    pages below them, and the root page number. -/
theorem Levels.congr (hroot : t'.fileHeader.rootPage = t.fileHeader.rootPage) :
    ∀ {Ls : List (Level K)} {Z : List (K × PageNum)}, Levels zeroKey t Z Ls →
      (∀ p ∈ pages Ls, t'.body p = t.body p) →
      (∀ p ∈ Z.map Prod.snd ++ pages Ls, t'.parentOf p = t.parentOf p) → Levels zeroKey t' Z Ls
  | [], Z, ⟨hZ, hp⟩, _, hpar => by
    refine ⟨by rw [hZ, hroot], ?_⟩
    rw [hroot, hpar _ (by simp [hZ]), hp]
  | L :: Ls, Z, ⟨hok, hZ, hup⟩, hbody, hpar => by
    refine ⟨fun x hx => (hok x hx).congr (hbody _ ?_) fun c hc => hpar _ ?_, hZ,
      Levels.congr hroot hup (fun p hp => hbody p (by simp [hp])) fun p hp => hpar p ?_⟩
    · exact List.mem_append_left _ (List.mem_map_of_mem hx)
    · rw [← hZ]
      exact List.mem_append_left _ (List.mem_map_of_mem (List.mem_flatMap.mpr ⟨x, hx, hc⟩))
    · rw [map_snd_head] at hp
      exact List.mem_append_right _ hp

/-- The nodes of the levels are allocated pages. -/
theorem Levels.isSome_body : ∀ {Ls : List (Level K)} {Z : List (K × PageNum)},
    Levels zeroKey t Z Ls → ∀ p ∈ pages Ls, (t.body p).isSome
  | [], _, _, _, hp => nomatch hp
  | L :: Ls, _, ⟨hok, _, hup⟩, p, hp => by
    rcases List.mem_append.mp hp with hp | hp
    · obtain ⟨x, hx, rfl⟩ := List.mem_map.mp hp
      rw [(hok x hx).body]
      rfl
    · exact hup.isSome_body p hp

theorem Levels.ne_nil : ∀ {Ls : List (Level K)} {Z : List (K × PageNum)},
    Levels zeroKey t Z Ls → Z ≠ []
  | [], Z, ⟨hZ, _⟩ => by simp [hZ]
  | L :: Ls, Z, ⟨hok, hZ, hup⟩ => by
    cases L with
    | nil => exact absurd rfl hup.ne_nil
    | cons x L =>
      have := (hok x (by simp)).items_ne_nil
      simp [← hZ, this]

theorem Levels.root_mem : ∀ {Ls : List (Level K)} {Z : List (K × PageNum)},
    Levels zeroKey t Z Ls → t.fileHeader.rootPage ∈ Z.map Prod.snd ++ pages Ls
  | [], _, ⟨hZ, _⟩ => by simp [hZ]
  | L :: Ls, _, ⟨_, _, hup⟩ => by
    have := hup.root_mem
    rw [map_snd_head] at this
    exact List.mem_append_right _ this

theorem Levels.length_le : ∀ {Ls : List (Level K)} {Z : List (K × PageNum)},
    Levels zeroKey t Z Ls → Ls.length ≤ (pages Ls).length
  | [], _, _ => Nat.le_refl _
  | L :: Ls, _, ⟨_, _, hup⟩ => by
    have hL : L ≠ [] := fun h => hup.ne_nil (by rw [h]; rfl)
    have := List.length_pos_of_ne_nil hL
    have := hup.length_le
    simp only [pages_cons, List.length_cons, List.length_append, List.length_map]
    omega

/-- A level of several nodes is not the root's, so its nodes are at least half full. -/
theorem SizesOK.half {maxSize : Nat} {L : Level K} {Ls : List (Level K)}
    (h : SizesOK maxSize none L Ls.isEmpty) (hup : Levels zeroKey t (L.map Seg.head) Ls)
    (hlen : 2 ≤ L.length) :
    ∀ x ∈ L, maxSize / 2 ≤ x.items.length ∧ x.items.length ≤ maxSize := by
  cases Ls with
  | nil =>
    have := congrArg List.length hup.1
    simp at this
    omega
  | cons P Ps => simpa [SizesOK] using h

/-- The leftmost separator of every level is the zero key. -/
theorem Levels.head_eq_zeroKey : ∀ {Ls : List (Level K)} {Z : List (K × PageNum)},
    Levels zeroKey t Z Ls → Z.head?.map Prod.fst = some zeroKey
  | [], Z, ⟨hZ, _⟩ => by simp [hZ]
  | L :: Ls, Z, ⟨hok, hZ, hup⟩ => by
    have hne := hup.ne_nil
    cases L with
    | nil => exact absurd rfl hne
    | cons x L =>
      have h0 := hup.head_eq_zeroKey
      obtain ⟨c, rest, hi⟩ := (hok x (by simp)).items_eq
      rw [← hZ, List.flatMap_cons, hi]
      exact h0

end Frame

/-! ## Order between a level and the one below -/

section Order

variable {cmp : K → K → Ordering} [Std.TransCmp cmp] {t : BplusTree K V} {L : Level K}

omit [Std.TransCmp cmp] in
/-- The separators of a level are sorted because the items below are. -/
theorem sorted_heads (hok : ∀ x ∈ L, NodeOK t x) (hs : TailSorted cmp (L.flatMap Seg.items)) :
    TailSorted cmp (L.map Seg.head) := by
  cases L with
  | nil => exact List.Pairwise.nil
  | cons x L =>
    obtain ⟨c, rest, hi⟩ := (hok x (by simp)).items_eq
    have hflat : (L.flatMap Seg.items).Pairwise fun a b => cmp a.1 b.1 = .lt := by
      rw [TailSorted, List.flatMap_cons, hi, List.cons_append, List.tail_cons,
        List.pairwise_append] at hs
      exact hs.2.1
    rw [TailSorted, List.map_cons, List.tail_cons, List.pairwise_map]
    refine (List.pairwise_flatMap.mp hflat).2.imp_of_mem fun {a b} ha hb hab => ?_
    obtain ⟨ca, ra, hia⟩ := (hok a (by simp [ha])).items_eq
    obtain ⟨cb, rb, hib⟩ := (hok b (by simp [hb])).items_eq
    exact hab (a.sep, ca) (by simp [hia]) (b.sep, cb) (by simp [hib])

omit [Std.TransCmp cmp] in
/-- A separator that is not the first of its level is the key of an item below that is not the
    first of its level either. -/
theorem mem_tail_of_heads {z : K × PageNum} (hok : ∀ x ∈ L, NodeOK t x)
    (hz : z ∈ (L.map Seg.head).tail) : ∃ c, (z.1, c) ∈ (L.flatMap Seg.items).tail := by
  cases L with
  | nil => cases hz
  | cons x L =>
    obtain ⟨s, hs, rfl⟩ := List.mem_map.mp hz
    obtain ⟨c, rest, hi⟩ := (hok s (by simp [hs])).items_eq
    obtain ⟨d, rest', hx⟩ := (hok x (by simp)).items_eq
    refine ⟨c, ?_⟩
    rw [List.flatMap_cons, hx, List.cons_append, List.tail_cons]
    exact List.mem_append_right _ (List.mem_flatMap.mpr ⟨s, hs, by simp [hi]⟩)

/-- Where a key belongs among the items it belongs one level up. -/
theorem position_up {LA LB : Level K} {y : Seg K PageNum} {ia ib : List (K × PageNum)}
    {z : K × PageNum} {x : K} (hok : ∀ x ∈ LA ++ y :: LB, NodeOK t x)
    (hs : TailSorted cmp ((LA ++ y :: LB).flatMap Seg.items)) (hy : y.items = ia ++ z :: ib)
    (hA : LA.flatMap Seg.items ++ ia ≠ [] → cmp x z.1 ≠ .lt)
    (hB : ∀ b ∈ (ib ++ LB.flatMap Seg.items).head?, cmp x b.1 = .lt) :
    (LA ≠ [] → cmp x y.sep ≠ .lt) ∧ ∀ b ∈ LB.head?, cmp x b.sep = .lt := by
  obtain ⟨c, rest, hi⟩ := (hok y (by simp)).items_eq
  constructor
  · intro hLA
    obtain ⟨a, LA, rfl⟩ := List.exists_cons_of_ne_nil hLA
    obtain ⟨d, rest', ha⟩ := (hok a (by simp)).items_eq
    have hxz := hA (by simp [ha])
    cases ia with
    | nil =>
      rw [hy, List.nil_append, List.cons_eq_cons] at hi
      rwa [hi.1] at hxz
    | cons i ia =>
      rw [hy, List.cons_append, List.cons_eq_cons] at hi
      have hcut : (a :: LA ++ y :: LB).flatMap Seg.items
          = ((a :: LA).flatMap Seg.items ++ i :: ia) ++ z :: (ib ++ LB.flatMap Seg.items) := by
        simp [hy]
      rw [hcut] at hs
      have hiz : cmp i.1 z.1 = .lt := hs.left_lt i (by simp [ha])
      rw [hi.1] at hiz
      exact ge_trans (ge_of_lt hiz) hxz
  · intro b hb
    obtain ⟨LB, rfl⟩ : ∃ LB', LB = b :: LB' := by
      obtain ⟨LB', h⟩ := List.head?_eq_some_iff.mp hb
      exact ⟨LB', h⟩
    obtain ⟨d, rest', hb'⟩ := (hok b (by simp)).items_eq
    cases ib with
    | nil => exact hB (b.sep, d) (by simp [hb'])
    | cons i ib =>
      have hcut : (LA ++ y :: b :: LB).flatMap Seg.items
          = (LA.flatMap Seg.items ++ ia ++ [z]) ++ i ::
            (ib ++ (b.sep, d) :: (rest' ++ LB.flatMap Seg.items)) := by
        simp [hy, hb']
      rw [hcut] at hs
      exact Std.TransCmp.lt_trans (hB i (by simp)) (hs.lt_right (by simp) (b.sep, d) (by simp))

end Order

/-! ## The parent of a node -/

/-- The node that holds item `z` of the level below. -/
theorem Levels.parent_of {zeroKey : K} {t : BplusTree K V} {A B : List (K × PageNum)}
    {z : K × PageNum} {L : Level K} {Ls : List (Level K)}
    (h : Levels zeroKey t (A ++ z :: B) (L :: Ls)) :
    ∃ LA y LB ia ib, L = LA ++ y :: LB ∧ y.items = ia ++ z :: ib ∧
      A = LA.flatMap Seg.items ++ ia ∧ B = ib ++ LB.flatMap Seg.items ∧ NodeOK t y ∧
      t.parentOf z.2 = some y.page := by
  obtain ⟨hok, hZ, -⟩ := h
  obtain ⟨LA, y, LB, ia, ib, rfl, hy, hA, hB⟩ := flatMap_eq_append_cons hZ
  have hyok := hok y (by simp)
  exact ⟨LA, y, LB, ia, ib, rfl, hy, hA, hB, hyok, hyok.parent z (by simp [hy])⟩

/-! ## Editing a level -/

section Edit

variable {zeroKey : K} {t t' : BplusTree K V}

/-- Nodes `N` of a level, with the items `W` below them, are replaced by `M`.  The other nodes stay
    well formed when their bodies and the parent fields of their children do not change. -/
theorem nodes_replace {LA N M LB : Level K} {W : List (K × PageNum)}
    (hok : ∀ x ∈ LA ++ N ++ LB, NodeOK t x)
    (hndW : ((LA.flatMap Seg.items ++ W ++ LB.flatMap Seg.items).map Prod.snd).Nodup)
    (hM : ∀ x ∈ M, NodeOK t' x)
    (hbody : ∀ x, x ∈ LA ∨ x ∈ LB → t'.body x.page = t.body x.page)
    (hparent : ∀ c ∈ LA.flatMap Seg.items ++ LB.flatMap Seg.items, c.2 ∉ W.map Prod.snd →
      t'.parentOf c.2 = t.parentOf c.2) :
    ∀ x ∈ LA ++ M ++ LB, NodeOK t' x := by
  simp only [List.map_append, List.nodup_append] at hndW
  intro x hx
  simp only [List.mem_append] at hx
  rcases hx with (hx | hx) | hx
  · refine (hok x (by simp [hx])).congr (hbody x (Or.inl hx)) fun c hc => ?_
    have hcx : c ∈ LA.flatMap Seg.items := List.mem_flatMap.mpr ⟨x, hx, hc⟩
    exact hparent c (List.mem_append_left _ hcx) fun hw =>
      hndW.1.2.2 _ (List.mem_map_of_mem hcx) _ hw rfl
  · exact hM x hx
  · refine (hok x (by simp [hx])).congr (hbody x (Or.inr hx)) fun c hc => ?_
    have hcx : c ∈ LB.flatMap Seg.items := List.mem_flatMap.mpr ⟨x, hx, hc⟩
    exact hparent c (List.mem_append_right _ hcx) fun hw =>
      hndW.2.2 _ (List.mem_append_right _ hw) _ (List.mem_map_of_mem hcx) rfl

/-- The items of one node `y` are edited from `ia ++ N ++ ib` to `ia ++ M ++ ib`, its first key
    staying the same: the levels hold the list edited in the same way. -/
theorem Levels.setItems {PA PB : Level K} {Ps : List (Level K)} {y : Seg K PageNum}
    {ia ib N M : List (K × PageNum)}
    (h : Levels zeroKey t ((PA ++ y :: PB).flatMap Seg.items) ((PA ++ y :: PB) :: Ps))
    (hy : y.items = ia ++ N ++ ib) (hhead : M.head?.map Prod.fst = N.head?.map Prod.fst)
    (hN : N ≠ []) (hroot : t'.fileHeader.rootPage = t.fileHeader.rootPage)
    (hnd : (pages ((PA ++ y :: PB) :: Ps)).Nodup)
    (hbody : t'.body y.page = some (.internal (ia ++ M ++ ib)))
    (hbodies : ∀ p ∈ pages ((PA ++ y :: PB) :: Ps), p ≠ y.page → t'.body p = t.body p)
    (hM : ∀ c ∈ M, t'.parentOf c.2 = some y.page)
    (hparents : ∀ c ∈ PA.flatMap Seg.items ++ ia ++ (ib ++ PB.flatMap Seg.items),
      t'.parentOf c.2 = t.parentOf c.2)
    (hparents' : ∀ p ∈ pages ((PA ++ y :: PB) :: Ps), t'.parentOf p = t.parentOf p) :
    Levels zeroKey t' ((PA ++ ⟨y.sep, y.page, ia ++ M ++ ib⟩ :: PB).flatMap Seg.items)
      ((PA ++ ⟨y.sep, y.page, ia ++ M ++ ib⟩ :: PB) :: Ps) := by
  obtain ⟨hok, -, hup⟩ := h
  rw [pages_cons, List.nodup_append] at hnd
  obtain ⟨hndP, -, hdis⟩ := hnd
  have hyok := hok y (by simp)
  -- the nodes beside the one written are as before
  have hside : ∀ x, x ∈ PA ∨ x ∈ PB → NodeOK t' x := by
    intro x hx
    have hxP : x ∈ PA ++ y :: PB := by rcases hx with hx | hx <;> simp [hx]
    refine (hok x hxP).congr (hbodies _ ?_ (ne_of_nodup_append_cons hndP hx)) fun c hc =>
      hparents c ?_
    · rw [pages_cons]
      exact List.mem_append_left _ (List.mem_map_of_mem hxP)
    · rcases hx with hx | hx
      · simp [List.mem_flatMap.mpr ⟨x, hx, hc⟩]
      · simp [List.mem_flatMap.mpr ⟨x, hx, hc⟩]
  -- the node itself: its array, the parents of its children and its first key
  refine ⟨fun x hx => ?_, rfl, ?_⟩
  · rcases List.mem_append.mp hx with hx | hx
    · exact hside x (Or.inl hx)
    rcases List.mem_cons.mp hx with rfl | hx
    · refine ⟨hbody, fun c hc => ?_, ?_⟩
      · simp only [List.mem_append] at hc
        rcases hc with (hc | hc) | hc
        · exact (hparents c (by simp [hc])).trans (hyok.parent c (by simp [hy, hc]))
        · exact hM c hc
        · exact (hparents c (by simp [hc])).trans (hyok.parent c (by simp [hy, hc]))
      · rw [← hyok.sep, hy]
        cases ia with
        | cons i ia => rfl
        | nil =>
          obtain ⟨n, N, rfl⟩ := List.exists_cons_of_ne_nil hN
          cases M with
          | nil => cases hhead
          | cons m M => simpa using hhead
    · exact hside x (Or.inr hx)
  -- the levels above see the same keys and pages
  · have hup' : Levels zeroKey t' ((PA ++ y :: PB).map Seg.head) Ps := by
      refine hup.congr hroot (fun p hp => hbodies p (by simp [hp]) ?_) fun p hp => hparents' p ?_
      · rintro rfl
        exact hdis _ (by simp) _ hp rfl
      · rwa [map_snd_head] at hp
    simpa [Seg.head] using hup'

/-- A level whose nodes are in place in `t`, below levels that were changed from `t` to `t'`. -/
theorem Levels.lift {L : Level K} {Ls Ls' : List (Level K)} (hok : ∀ x ∈ L, NodeOK t x)
    (hlev : Levels zeroKey t' (L.map Seg.head) Ls')
    (hfr : LevelsFrame t t' (L.map Seg.page) Ls Ls') (hL : ∀ x ∈ L, x.page ∉ pages Ls)
    (hZ : ∀ z ∈ L.flatMap Seg.items,
      (t.body z.2).isSome ∧ z.2 ∉ L.map Seg.page ∧ z.2 ∉ pages Ls) :
    Levels zeroKey t' (L.flatMap Seg.items) (L :: Ls') := by
  refine ⟨fun x hx => (hok x hx).congr (hfr.body _ (by rw [(hok x hx).body]; rfl) (hL x hx))
    fun c hc => ?_, rfl, hlev⟩
  obtain ⟨h1, h2, h3⟩ := hZ c (List.mem_flatMap.mpr ⟨x, hx, hc⟩)
  exact hfr.parentOf _ h1 h2 h3

/-- A change of one level from `L` to `L'`, followed by a change of the levels above. -/
theorem LevelsFrame.cons {t₁ : BplusTree K V} {ps : List PageNum} {L L' : Level K}
    {Ls Ls' : List (Level K)} (hok : ∀ x ∈ L', NodeOK t₁ x)
    (hint : t₁.fileHeader.internalMaxSize = t.fileHeader.internalMaxSize)
    (hleaf : t₁.fileHeader.leafMaxSize = t.fileHeader.leafMaxSize)
    (hbody : ∀ p, (t.body p).isSome → p ∉ L.map Seg.page → t₁.body p = t.body p)
    (hparent : ∀ p, (t.body p).isSome → p ∉ ps → p ∉ L.map Seg.page →
      t₁.parentOf p = t.parentOf p)
    (hfresh : ∀ p ∈ L'.map Seg.page, p ∈ L.map Seg.page ∨ t.body p = none)
    (hnd : (L'.map Seg.page).Nodup) (hdis : ∀ p ∈ L'.map Seg.page, p ∉ pages Ls)
    (hfr : LevelsFrame t₁ t' (L'.map Seg.page) Ls Ls') :
    LevelsFrame t t' ps (L :: Ls) (L' :: Ls') := by
  have hsome : ∀ p, (t.body p).isSome → p ∉ L.map Seg.page → (t₁.body p).isSome := fun p hp hL => by
    rwa [hbody p hp hL]
  refine ⟨hfr.internalMaxSize.trans hint, hfr.leafMaxSize.trans hleaf, fun p hp hps => ?_,
    fun p hp hps hpL => ?_, fun p hp => ?_, ?_⟩
  -- what is above is not touched, and what is new above is not on this level
  · rw [pages_cons, List.mem_append, not_or] at hps
    rw [hfr.body p (hsome p hp hps.1) hps.2, hbody p hp hps.1]
  · rw [pages_cons, List.mem_append, not_or] at hpL
    rw [hfr.parentOf p (hsome p hp hpL.1) (fun h => ?_) hpL.2, hparent p hp hps hpL.1]
    rcases hfresh p h with h | h
    · exact hpL.1 h
    · rw [h] at hp
      cases hp
  · rw [pages_cons, List.mem_append] at hp ⊢
    rcases hp with hp | hp
    · exact (hfresh p hp).imp_left Or.inl
    by_cases hL : p ∈ L.map Seg.page
    · exact Or.inl (Or.inl hL)
    rcases hfr.fresh p hp with h | h
    · exact Or.inl (Or.inr h)
    · refine Or.inr (Option.not_isSome_iff_eq_none.mp fun hs => ?_)
      rw [← Option.not_isSome_iff_eq_none] at h
      exact h (hsome p hs hL)
  · rw [pages_cons, List.nodup_append]
    refine ⟨hnd, hfr.nodup, fun p hp q hq hpq => ?_⟩
    subst hpq
    rcases hfr.fresh p hq with h | h
    · exact hdis p hp h
    · obtain ⟨x, hx, rfl⟩ := List.mem_map.mp hp
      rw [(hok x hx).body] at h
      cases h

/-- Two changes, one after the other. -/
theorem LevelsFrame.trans {t₁ : BplusTree K V} {ps : List PageNum} {Ls Ls₁ Ls' : List (Level K)}
    (h : LevelsFrame t t₁ ps Ls Ls₁) (h' : LevelsFrame t₁ t' ps Ls₁ Ls') :
    LevelsFrame t t' ps Ls Ls' := by
  have hsome : ∀ p, (t.body p).isSome → p ∉ pages Ls → (t₁.body p).isSome := fun p hp hps => by
    rwa [h.body p hp hps]
  have hnot : ∀ p, (t.body p).isSome → p ∉ pages Ls → p ∉ pages Ls₁ := fun p hp hps hp' => by
    rcases h.fresh p hp' with hp' | hn
    · exact hps hp'
    · rw [hn] at hp
      cases hp
  refine ⟨h'.internalMaxSize.trans h.internalMaxSize, h'.leafMaxSize.trans h.leafMaxSize,
    fun p hp hps => ?_, fun p hp hps hpL => ?_, fun p hp => ?_, h'.nodup⟩
  · rw [h'.body p (hsome p hp hps) (hnot p hp hps), h.body p hp hps]
  · rw [h'.parentOf p (hsome p hp hpL) hps (hnot p hp hpL), h.parentOf p hp hps hpL]
  · by_cases hpL : p ∈ pages Ls
    · exact Or.inl hpL
    · refine Or.inr (Option.not_isSome_iff_eq_none.mp fun hs => ?_)
      rcases h'.fresh p hp with h₁ | hn
      · exact hnot p hs hpL h₁
      · have := hsome p hs hpL
        rw [hn] at this
        cases this

/-- A change of one level that keeps its pages, below levels that did not change. -/
theorem LevelsFrame.single {ps : List PageNum} {L L' : Level K} {Ls : List (Level K)}
    (hpages : L'.map Seg.page = L.map Seg.page) (hnd : (pages (L :: Ls)).Nodup)
    (hint : t'.fileHeader.internalMaxSize = t.fileHeader.internalMaxSize)
    (hleaf : t'.fileHeader.leafMaxSize = t.fileHeader.leafMaxSize)
    (hbody : ∀ p, (t.body p).isSome → p ∉ L.map Seg.page → t'.body p = t.body p)
    (hparent : ∀ p, (t.body p).isSome → p ∉ ps → t'.parentOf p = t.parentOf p) :
    LevelsFrame t t' ps (L :: Ls) (L' :: Ls) := by
  have hp' : pages (L' :: Ls) = pages (L :: Ls) := by rw [pages_cons, hpages, pages_cons]
  refine ⟨hint, hleaf, fun p hp hps => hbody p hp fun h => hps ?_, fun p hp hps _ =>
    hparent p hp hps, fun p hp => Or.inl (hp' ▸ hp), hp' ▸ hnd⟩
  rw [pages_cons]
  exact List.mem_append_left _ h

end Edit

/-! ## Search -/

section Search

variable {zeroKey : K} {t : BplusTree K V}

/-- One step of the descent. -/
theorem findLeafFrom_step {getter : List (K × PageNum) → Except Fault PageNum} {fuel : Nat}
    {p c : PageNum} {array : List (K × PageNum)} (hb : t.body p = some (.internal array))
    (hg : getter array = .ok c) :
    t.findLeafFrom getter (fuel + 1) p = t.findLeafFrom getter fuel c := by
  obtain ⟨q, hq⟩ := BplusTree.exists_parentOf hb
  rw [BplusTree.findLeafFrom, BplusTree.getPage_eq hb hq]
  simp only [bind, Except.bind, hg]

/-- The end of the descent. -/
theorem findLeafFrom_leaf {getter : List (K × PageNum) → Except Fault PageNum} {fuel : Nat}
    {p next : PageNum} {array : List (K × V)} (hb : t.body p = some (.leaf next array)) :
    t.findLeafFrom getter (fuel + 1) p = .ok p := by
  obtain ⟨q, hq⟩ := BplusTree.exists_parentOf hb
  rw [BplusTree.findLeafFrom, BplusTree.getPage_eq hb hq]
  rfl

/-- **Search goes where the key belongs.**  Induction on the levels: the step from a level to the
    one below is one lookup. -/
theorem Levels.findLeafFrom_eq {cmp : K → K → Ordering} [Std.TransCmp cmp] {x : K} :
    ∀ {Ls : List (Level K)} {A B : List (K × PageNum)} {z : K × PageNum} (fuel : Nat),
      Levels zeroKey t (A ++ z :: B) Ls → TailSorted cmp (A ++ z :: B) →
      (A ≠ [] → cmp x z.1 ≠ .lt) → (∀ b ∈ B.head?, cmp x b.1 = .lt) →
      t.findLeafFrom (fun array => valueAt array (internalLookup cmp array x)) (fuel + Ls.length)
          t.fileHeader.rootPage
        = t.findLeafFrom (fun array => valueAt array (internalLookup cmp array x)) fuel z.2
  | [], A, B, z, fuel, ⟨hZ, _⟩, _, _, _ => by
    obtain ⟨rfl, rfl, rfl⟩ := append_cons_eq_singleton hZ
    rfl
  | L :: Ls, A, B, z, fuel, h, hs, hA, hB => by
    obtain ⟨LA, y, LB, ia, ib, rfl, hy, rfl, rfl, hyok, -⟩ := h.parent_of
    obtain ⟨hok, hZ, hup⟩ := h
    rw [← hZ] at hs
    have hpos := position_up hok hs hy hA hB
    have hheads := sorted_heads hok hs
    rw [List.map_append, List.map_cons] at hup hheads
    have ih := hup.findLeafFrom_eq (x := x) (fuel + 1) hheads
      (fun hne => hpos.1 (by simpa using hne)) (by simpa [List.head?_map] using hpos.2)
    rw [List.length_cons, show fuel + (Ls.length + 1) = fuel + 1 + Ls.length by omega, ih]
    refine findLeafFrom_step hyok.body ?_
    have hcut : TailSorted cmp (ia ++ z :: ib) := by
      rw [List.flatMap_append, List.flatMap_cons, ← List.append_assoc, hy] at hs
      exact hs.part
    rw [hy, internalLookup_eq hcut (fun hne => hA (by simp [hne])) ?_, valueAt_append]
    intro b hb
    exact hB b (by simp [List.head?_append, Option.mem_def.mp hb])

/-- The leftmost descent ends at the first page. -/
theorem Levels.findLeafFrom_zero :
    ∀ {Ls : List (Level K)} {B : List (K × PageNum)} {z : K × PageNum} (fuel : Nat),
      Levels zeroKey t (z :: B) Ls →
      t.findLeafFrom (fun array => valueAt array 0) (fuel + Ls.length) t.fileHeader.rootPage
        = t.findLeafFrom (fun array => valueAt array 0) fuel z.2
  | [], B, z, fuel, ⟨hZ, _⟩ => by
    rw [(List.cons_eq_cons.mp hZ).1]
    rfl
  | L :: Ls, B, z, fuel, h => by
    obtain ⟨hok, hZ, hup⟩ := h
    cases L with
    | nil => exact absurd rfl hup.ne_nil
    | cons y L =>
      have hyok := hok y (by simp)
      obtain ⟨c, rest, hi⟩ := hyok.items_eq
      have hz : z = (y.sep, c) := by
        rw [List.flatMap_cons, hi, List.cons_append] at hZ
        exact (List.cons_eq_cons.mp hZ).1.symm
      rw [List.length_cons, show fuel + (Ls.length + 1) = fuel + 1 + Ls.length by omega,
        Levels.findLeafFrom_zero (fuel + 1) hup]
      refine findLeafFrom_step hyok.body ?_
      rw [hi, hz]
      rfl

end Search
end Miniob.Index
