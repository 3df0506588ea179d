/-
  Decoders that read values off the front of a buffer, for any symbols, values and failures.

  `Decodes p L Bad` says all there is to know about a decoder `p`: it reads exactly the words of the
  language `L` (and leaves what is behind them), and it fails in a way that counts as a crash on the
  buffers in `Bad` and on no others.  The rules follow the ways decoders are put together: one behind
  the other (`Decodes.bind`), and again and again until the buffer is empty (`decodeAll_eq_ok`,
  `decodeAll_crashes`).
-/
import Mathlib.Data.List.Basic

namespace Miniob.Common

variable {B E α β : Type}

/-- The decoder fails on the buffer, in a way that counts as a crash. -/
def Crashes (crash : E → Prop) (x : Except E α) : Prop := ∃ e, x = .error e ∧ crash e

theorem not_crashes_ok (crash : E → Prop) (a : α) : ¬ Crashes crash (.ok a : Except E α) :=
  fun ⟨_, he, _⟩ => nomatch he

/-- What the decoder does on every input: `L` is the language it reads, `Bad` are the inputs on which it crashes. -/
structure Decodes (crash : E → Prop) (p : List B → Except E (α × List B))
    (L : List B → α → Prop) (Bad : List B → Prop) : Prop where
  /-- A word of the language is read, whatever comes behind it. -/
  read : ∀ w a t, L w a → p (w ++ t) = .ok (a, t)
  /-- Nothing else is read. -/
  inv : ∀ s a t, p s = .ok (a, t) → ∃ w, L w a ∧ s = w ++ t
  /-- It crashes on the bad inputs only. -/
  bad : ∀ s, Crashes crash (p s) ↔ Bad s

variable {crash : E → Prop} {p : List B → Except E (α × List B)} {L : List B → α → Prop}
  {Bad : List B → Prop}

namespace Decodes

/-- A decoder that reads nothing. -/
theorem pure (a : α) : Decodes crash (fun s : List B => .ok (a, s))
    (fun w a' => w = [] ∧ a' = a) fun _ => False where
  read := by
    rintro w a' t ⟨rfl, rfl⟩
    rfl
  inv := by
    intro s a' t h
    obtain ⟨rfl, rfl⟩ := Prod.mk.inj (Except.ok.inj h)
    exact ⟨[], ⟨rfl, rfl⟩, rfl⟩
  bad s := ⟨not_crashes_ok crash _, False.elim⟩

/-- A decoder that always gives up. -/
theorem fail {e : E} (he : ¬ crash e) : Decodes crash (fun _ : List B => (.error e : Except E (α × List B)))
    (fun _ _ => False) fun _ => False where
  read _ _ _ h := h.elim
  inv _ _ _ h := nomatch h
  bad s := by
    constructor
    · rintro ⟨e', he', hcrash⟩
      exact he (Except.error.inj he' ▸ hcrash)
    · exact False.elim

theorem congr (h : Decodes crash p L Bad) {L' : List B → α → Prop} {Bad' : List B → Prop}
    (hL : ∀ w a, L w a ↔ L' w a) (hBad : ∀ s, Bad s ↔ Bad' s) : Decodes crash p L' Bad' where
  read w a t hw := h.read w a t ((hL w a).mpr hw)
  inv s a t hs := by
    obtain ⟨w, hw, hst⟩ := h.inv s a t hs
    exact ⟨w, (hL w a).mp hw, hst⟩
  bad s := (h.bad s).trans (hBad s)

/-- **One behind the other.** -/
theorem bind (h : Decodes crash p L Bad) {q : α → List B → Except E (β × List B)}
    {L' : α → List B → β → Prop} {Bad' : α → List B → Prop}
    (hq : ∀ a, (∃ w, L w a) → Decodes crash (q a) (L' a) (Bad' a)) :
    Decodes crash (fun s => p s >>= fun r => q r.1 r.2)
      (fun w b => ∃ w₁ a w₂, L w₁ a ∧ L' a w₂ b ∧ w = w₁ ++ w₂)
      fun s => Bad s ∨ ∃ w a t, L w a ∧ Bad' a t ∧ s = w ++ t where
  read := by
    rintro w b t ⟨w₁, a, w₂, hw₁, hw₂, rfl⟩
    rw [List.append_assoc, h.read w₁ a (w₂ ++ t) hw₁]
    exact (hq a ⟨w₁, hw₁⟩).read w₂ b t hw₂
  inv := by
    intro s b t hs
    cases hp : p s with
    | error e =>
      rw [hp] at hs
      cases hs
    | ok r =>
      rw [hp] at hs
      obtain ⟨w₁, hw₁, rfl⟩ := h.inv s r.1 r.2 hp
      obtain ⟨w₂, hw₂, hr⟩ := (hq r.1 ⟨w₁, hw₁⟩).inv r.2 b t hs
      exact ⟨w₁ ++ w₂, ⟨w₁, r.1, w₂, hw₁, hw₂, rfl⟩, by rw [hr, List.append_assoc]⟩
  bad := by
    intro s
    cases hp : p s with
    | error e =>
      constructor
      · rintro ⟨e', he', hcrash⟩
        obtain rfl : e = e' := Except.error.inj he'
        exact Or.inl ((h.bad s).mp ⟨e, hp, hcrash⟩)
      · rintro (hbad | ⟨w, a, t, hw, -, rfl⟩)
        · obtain ⟨e', he', hcrash⟩ := (h.bad s).mpr hbad
          obtain rfl : e = e' := Except.error.inj (hp.symm.trans he')
          exact ⟨e, rfl, hcrash⟩
        · cases hp.symm.trans (h.read w a t hw)
    | ok r =>
      obtain ⟨w₁, hw₁, rfl⟩ := h.inv s r.1 r.2 hp
      have hq' := (hq r.1 ⟨w₁, hw₁⟩).bad r.2
      constructor
      · intro hcrash
        exact Or.inr ⟨w₁, r.1, r.2, hw₁, hq'.mp hcrash, rfl⟩
      · rintro (hbad | ⟨w, a, t, hw, hbad, heq⟩)
        · obtain ⟨e, he, -⟩ := (h.bad _).mpr hbad
          cases hp.symm.trans he
        · rw [heq, h.read w a t hw] at hp
          obtain rfl := Except.ok.inj hp
          exact hq'.mpr hbad

/-- Behind a value that is read without a crash. -/
theorem after {enc : α → List B} (h : Decodes crash p (fun w a => w = enc a) fun _ => False)
    {q : α → List B → Except E (β × List B)} {L' : α → List B → β → Prop} {Bad' : α → List B → Prop}
    (hq : ∀ a, Decodes crash (q a) (L' a) (Bad' a)) :
    Decodes crash (fun s => p s >>= fun r => q r.1 r.2)
      (fun w b => ∃ a w', L' a w' b ∧ w = enc a ++ w') fun s => ∃ a t, Bad' a t ∧ s = enc a ++ t := by
  refine (h.bind fun a _ => hq a).congr (fun w b => ⟨?_, ?_⟩) fun s => ⟨?_, ?_⟩
  · rintro ⟨w₁, a, w₂, rfl, hb, rfl⟩
    exact ⟨a, w₂, hb, rfl⟩
  · rintro ⟨a, w₂, hb, rfl⟩
    exact ⟨enc a, a, w₂, rfl, hb, rfl⟩
  · rintro (hbad | ⟨w, a, t, rfl, hbad, rfl⟩)
    · exact hbad.elim
    · exact ⟨a, t, hbad, rfl⟩
  · rintro ⟨a, t, hbad, rfl⟩
    exact Or.inr ⟨enc a, a, t, rfl, hbad, rfl⟩

/-- A value made of the value that is read. -/
theorem map (h : Decodes crash p L Bad) (g : α → β) :
    Decodes crash (fun s => p s >>= fun r => .ok (g r.1, r.2)) (fun w b => ∃ a, L w a ∧ b = g a) Bad := by
  refine (h.bind fun a _ => Decodes.pure (g a)).congr (fun w b => ⟨?_, ?_⟩) fun s => ⟨?_, Or.inl⟩
  · rintro ⟨w₁, a, w₂, hw, ⟨rfl, rfl⟩, rfl⟩
    exact ⟨a, by rwa [List.append_nil], rfl⟩
  · rintro ⟨a, hw, rfl⟩
    exact ⟨w, a, [], hw, ⟨rfl, rfl⟩, (List.append_nil w).symm⟩
  · rintro (hbad | ⟨w, a, t, -, hbad, -⟩)
    · exact hbad
    · exact hbad.elim

end Decodes

/-! ## Until the buffer is empty -/

/-- `while (buffer.remain() > 0)`; every round that goes on reads something, so there are no more
    rounds than symbols. -/
def decodeLoop (p : List B → Except E (α × List B)) : Nat → List B → Except E (List α × List B)
  | 0, s => .ok ([], s)
  | fuel + 1, s =>
    if s.length > 0 then do
      let (a, s) ← p s
      let (as, s) ← decodeLoop p fuel s
      return (a :: as, s)
    else .ok ([], s)

def decodeAll (p : List B → Except E (α × List B)) (s : List B) : Except E (List α × List B) :=
  decodeLoop p s.length s

/-- The word is a sequence of words of the language. -/
inductive Words (L : List B → α → Prop) : List B → List α → Prop where
  | nil : Words L [] []
  | cons {w t : List B} {a : α} {as : List α} : L w a → Words L t as → Words L (w ++ t) (a :: as)

section DecodeAll

variable (h : Decodes crash p L Bad) (hne : ∀ w a, L w a → w ≠ [])
include h hne

/-- Words that lie one behind the other are decoded. -/
theorem decodeLoop_words {w : List B} {as : List α} (hw : Words L w as) :
    ∀ fuel, w.length ≤ fuel → decodeLoop p fuel w = .ok (as, []) := by
  induction hw with
  | nil =>
    intro fuel _
    cases fuel with
    | zero => rfl
    | succ fuel => rfl
  | @cons w t a as hwa _ ih =>
    intro fuel hfuel
    have hpos := List.length_pos_of_ne_nil (hne w a hwa)
    rw [List.length_append] at hfuel
    cases fuel with
    | zero => omega
    | succ fuel =>
      unfold decodeLoop
      rw [if_pos (by rw [List.length_append]; omega), h.read w a t hwa]
      show (decodeLoop p fuel t >>= _) = _
      rw [ih fuel (by omega)]
      rfl

/-- What is decoded is such words. -/
theorem decodeLoop_inv {fuel : Nat} {s t : List B} {as : List α}
    (hs : decodeLoop p fuel s = .ok (as, t)) (hfuel : s.length ≤ fuel) : Words L s as ∧ t = [] := by
  induction fuel generalizing s as with
  | zero =>
    obtain rfl := List.eq_nil_of_length_eq_zero (Nat.le_zero.mp hfuel)
    obtain ⟨rfl, rfl⟩ := Prod.mk.inj (Except.ok.inj hs)
    exact ⟨.nil, rfl⟩
  | succ fuel ih =>
    unfold decodeLoop at hs
    by_cases hpos : s.length > 0
    · rw [if_pos hpos] at hs
      cases hp : p s with
      | error e =>
        rw [hp] at hs
        cases hs
      | ok r =>
        rw [hp] at hs
        replace hs : (decodeLoop p fuel r.2 >>= fun r' => .ok (r.1 :: r'.1, r'.2)) = .ok (as, t) := hs
        obtain ⟨w, hw, rfl⟩ := h.inv s r.1 r.2 hp
        have hlen := List.length_pos_of_ne_nil (hne w r.1 hw)
        rw [List.length_append] at hfuel
        cases hl : decodeLoop p fuel r.2 with
        | error e =>
          rw [hl] at hs
          cases hs
        | ok r' =>
          rw [hl] at hs
          obtain ⟨rfl, rfl⟩ := Prod.mk.inj (Except.ok.inj hs)
          obtain ⟨hwords, hnil⟩ := ih hl (by omega)
          exact ⟨.cons hw hwords, hnil⟩
    · rw [if_neg hpos] at hs
      obtain rfl := List.eq_nil_of_length_eq_zero (by omega : s.length = 0)
      obtain ⟨rfl, rfl⟩ := Prod.mk.inj (Except.ok.inj hs)
      exact ⟨.nil, rfl⟩

/-- **What is read.** -/
theorem decodeAll_eq_ok {s t : List B} {as : List α} :
    decodeAll p s = .ok (as, t) ↔ Words L s as ∧ t = [] := by
  constructor
  · exact fun hs => decodeLoop_inv h hne hs (Nat.le_refl _)
  · rintro ⟨hw, rfl⟩
    exact decodeLoop_words h hne hw _ (Nat.le_refl _)

/-- The decoder crashes exactly at a bad word behind good ones. -/
theorem decodeLoop_crashes {fuel : Nat} {s : List B} (hfuel : s.length ≤ fuel) :
    Crashes crash (decodeLoop p fuel s) ↔
      ∃ w as t, Words L w as ∧ Bad t ∧ t ≠ [] ∧ s = w ++ t := by
  induction fuel generalizing s with
  | zero =>
    obtain rfl := List.eq_nil_of_length_eq_zero (Nat.le_zero.mp hfuel)
    constructor
    · exact fun hc => absurd hc (not_crashes_ok crash _)
    · rintro ⟨w, as, t, -, -, ht, heq⟩
      exact absurd (List.append_eq_nil_iff.mp heq.symm).2 ht
  | succ fuel ih =>
    unfold decodeLoop
    by_cases hpos : s.length > 0
    · rw [if_pos hpos]
      cases hp : p s with
      | error e =>
        constructor
        · rintro ⟨e', he', hcrash⟩
          obtain rfl : e = e' := Except.error.inj he'
          exact ⟨[], [], s, .nil, (h.bad s).mp ⟨e, hp, hcrash⟩, List.ne_nil_of_length_pos hpos, rfl⟩
        · rintro ⟨w, as, t, hw, hbad, -, rfl⟩
          cases hw with
          | nil =>
            obtain ⟨e', he', hcrash⟩ := (h.bad t).mpr hbad
            obtain rfl : e = e' := Except.error.inj (hp.symm.trans he')
            exact ⟨e, rfl, hcrash⟩
          | cons hwa _ =>
            rw [List.append_assoc, h.read _ _ _ hwa] at hp
            cases hp
      | ok r =>
        obtain ⟨w₁, hw₁, rfl⟩ := h.inv s r.1 r.2 hp
        have hlen := List.length_pos_of_ne_nil (hne w₁ r.1 hw₁)
        rw [List.length_append] at hfuel
        have hrest := ih (s := r.2) (by omega)
        have hstep : Crashes crash (decodeLoop p fuel r.2 >>= fun r' => .ok (r.1 :: r'.1, r'.2)) ↔
            Crashes crash (decodeLoop p fuel r.2) := by
          cases decodeLoop p fuel r.2 with
          | error e => exact ⟨fun ⟨e', he', hc⟩ => ⟨e', congrArg _ (Except.error.inj he'), hc⟩,
              fun ⟨e', he', hc⟩ => ⟨e', congrArg _ (Except.error.inj he'), hc⟩⟩
          | ok r' => exact ⟨fun hc => absurd hc (not_crashes_ok crash _),
              fun hc => absurd hc (not_crashes_ok crash _)⟩
        refine hstep.trans (hrest.trans ?_)
        constructor
        · rintro ⟨w, as, t, hw, hbad, ht, heq⟩
          exact ⟨w₁ ++ w, r.1 :: as, t, .cons hw₁ hw, hbad, ht, by rw [heq, List.append_assoc]⟩
        · rintro ⟨w, as, t, hw, hbad, ht, heq⟩
          cases hw with
          | nil =>
            obtain ⟨e, he, -⟩ := (h.bad t).mpr hbad
            rw [heq] at hp
            cases hp.symm.trans he
          | cons hwa hwords =>
            rw [heq, List.append_assoc, h.read _ _ _ hwa] at hp
            obtain rfl := Except.ok.inj hp
            exact ⟨_, _, t, hwords, hbad, ht, rfl⟩
    · rw [if_neg hpos]
      obtain rfl := List.eq_nil_of_length_eq_zero (by omega : s.length = 0)
      constructor
      · exact fun hc => absurd hc (not_crashes_ok crash _)
      · rintro ⟨w, as, t, -, -, ht, heq⟩
        exact absurd (List.append_eq_nil_iff.mp heq.symm).2 ht

/-- **Where it crashes**: behind some whole words. -/
theorem decodeAll_crashes {s : List B} :
    Crashes crash (decodeAll p s) ↔ ∃ w as t, Words L w as ∧ Bad t ∧ t ≠ [] ∧ s = w ++ t :=
  decodeLoop_crashes h hne (Nat.le_refl _)

end DecodeAll

end Miniob.Common
