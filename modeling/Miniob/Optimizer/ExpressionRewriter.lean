/-
  Expression rewriting (`expression_rewriter.cpp`, `conjunction_simplification_rule.cpp` and
  `comparison_simplification_rule.cpp`).

  1. A pass applies both rules to an expression; if neither has changed it, the pass goes into its parts.
  2. `ConjunctionSimplificationRule` leaves out the neutral constants.  At a constant that decides the
     conjunction it takes the first child that is left, which need not be the constant; an OR of nothing but
     false constants becomes the empty OR, which is true; and a conjunction with one child becomes the child,
     whose value need not be a BOOLEAN.
  3. Where a pass meets none of this (`Safe`) it keeps the value in every row; below a conjunction it is enough
     to keep the truth (`Same`).
-/
import Miniob.Optimizer.Expression

namespace Miniob.Optimizer

open Miniob.Common Miniob.Expr

variable {ρ O Q A : Type}

/-! ## The rules -/

section Rules

variable (ops : Operations ρ O Q A)

/-- `ComparisonExpr::try_get_value`. -/
def tryGetValue (comp : CompOp) (left right : Expression ρ O Q A) : Option Bool :=
  match left, right with
  | .value l, .value r => (ops.compareValue comp l r).toOption
  | _, _ => none

/-- `ComparisonSimplificationRule::rewrite`; the second part of the result is `change_made`. -/
def comparisonRule : Expression ρ O Q A → Expression ρ O Q A × Bool
  | .comparison comp left right =>
    match tryGetValue ops comp left right with
    | some b => (.value (.boolean b), true)
    | none => (.comparison comp left right, false)
  | e => (e, false)

/-- Where the loop over the children ends. -/
inductive Simplified (ρ O Q A : Type) where
  /-- At a constant that decides; this is the child at the front. -/
  | decided (front : Expression ρ O Q A)
  | remaining (children : List (Expression ρ O Q A))

/-- The loop over the children; `kept` are those in front of the iterator. -/
def simplifyChildren (type : ConjunctionType) (kept : List (Expression ρ O Q A)) :
    List (Expression ρ O Q A) → Simplified ρ O Q A
  | [] => .remaining kept
  | c :: rest =>
    match c.boolConstant with
    | none => simplifyChildren type (kept ++ [c]) rest
    | some b =>
      if b = stopValue type then .decided ((kept ++ c :: rest).headD c)
      else simplifyChildren type kept rest

/-- `ConjunctionSimplificationRule::rewrite`. -/
def conjunctionRule : Expression ρ O Q A → Expression ρ O Q A × Bool
  | .conjunction type children =>
    match simplifyChildren type [] children with
    | .decided front => (front, false)
    | .remaining [c] => (c, true)
    | .remaining children => (.conjunction type children, false)
  | e => (e, false)

/-- Both rules, one after the other. -/
def applyRules (e : Expression ρ O Q A) : Expression ρ O Q A × Bool :=
  let (e, comparisonChanged) := comparisonRule ops e
  let (e, conjunctionChanged) := conjunctionRule e
  (e, comparisonChanged || conjunctionChanged)

end Rules

/-! ## What the loop over the children leaves -/

section Loop

variable {ops : Operations ρ O Q A} {type : ConjunctionType} {kept rest children : List (Expression ρ O Q A)}
  {front : Expression ρ O Q A}

/-- The constant that makes no difference. -/
def neutral (type : ConjunctionType) (e : Expression ρ O Q A) : Bool := e.boolConstant == some !stopValue type

/-- The loop ends at the first constant that decides, or leaves out the neutral ones. -/
theorem simplifyChildren_cases :
    (∃ xs d ys, rest = xs ++ d :: ys ∧ d.boolConstant = some (stopValue type) ∧ simplifyChildren type kept rest =
      .decided ((kept ++ xs.filter (fun c => !neutral type c) ++ [d]).headD d)) ∨
    simplifyChildren type kept rest = .remaining (kept ++ rest.filter fun c => !neutral type c) := by
  induction rest generalizing kept with
  | nil => exact Or.inr (by rw [simplifyChildren, List.filter_nil, List.append_nil])
  | cons c rest ih =>
    have hkeep : c.boolConstant = none → neutral type c = false := by
      intro h
      unfold neutral
      rw [h]
      rfl
    have hdrop : ∀ b, c.boolConstant = some b → b ≠ stopValue type → neutral type c = true := by
      intro b h hb
      unfold neutral
      rw [h]
      cases b <;> cases hstop : stopValue type <;> simp_all
    rw [simplifyChildren]
    cases hconst : c.boolConstant with
    | none =>
      dsimp only
      rcases @ih (kept ++ [c]) with ⟨xs, d, ys, rfl, hd, heq⟩ | heq
      · refine Or.inl ⟨c :: xs, d, ys, rfl, hd, ?_⟩
        rw [heq, List.filter_cons_of_pos (by rw [hkeep hconst]; rfl), List.append_assoc kept, List.singleton_append]
      · refine Or.inr ?_
        rw [heq, List.filter_cons_of_pos (by rw [hkeep hconst]; rfl), List.append_assoc, List.singleton_append]
    | some b =>
      dsimp only
      by_cases hb : b = stopValue type
      · rw [if_pos hb]
        refine Or.inl ⟨[], c, rest, rfl, hb ▸ hconst, ?_⟩
        rw [List.filter_nil, List.append_nil]
        cases kept <;> rfl
      · rw [if_neg hb]
        have hskip : ∀ es, (c :: es).filter (fun c => !neutral type c) = es.filter fun c => !neutral type c :=
          fun es => List.filter_cons_of_neg (by rw [hdrop b hconst hb]; exact Bool.false_ne_true)
        rcases @ih kept with ⟨xs, d, ys, rfl, hd, heq⟩ | heq
        · exact Or.inl ⟨c :: xs, d, ys, rfl, hd, by rw [heq, hskip]⟩
        · exact Or.inr (by rw [heq, hskip])

theorem remaining_eq (h : simplifyChildren type [] children = .remaining kept) :
    kept = children.filter fun c => !neutral type c := by
  rcases @simplifyChildren_cases ρ O Q A type [] children with ⟨xs, d, ys, -, -, heq⟩ | heq
  · cases h.symm.trans heq
  · cases h.symm.trans heq
    rfl

/-- The child that is taken: what stands in front of it is neutral. -/
theorem decided_eq (h : simplifyChildren type [] children = .decided front) :
    ∃ xs ys, children = xs ++ front :: ys ∧ ∀ c ∈ xs, neutral type c = true := by
  rcases @simplifyChildren_cases ρ O Q A type [] children with ⟨xs, d, ys, rfl, -, heq⟩ | heq
  · have hfront := Simplified.decided.inj (h.symm.trans heq)
    rw [List.nil_append] at hfront
    clear h heq
    induction xs with
    | nil => exact ⟨[], ys, by rw [hfront]; rfl, List.forall_mem_nil _⟩
    | cons c xs ih =>
      cases hc : neutral type c with
      | false =>
        rw [List.filter_cons_of_pos (by rw [hc]; rfl)] at hfront
        exact ⟨[], xs ++ d :: ys, by rw [hfront]; rfl, List.forall_mem_nil _⟩
      | true =>
        rw [List.filter_cons_of_neg (by rw [hc]; exact Bool.false_ne_true)] at hfront
        obtain ⟨xs', ys', heq, hall⟩ := ih hfront
        exact ⟨c :: xs', ys', by rw [List.cons_append, heq]; rfl, List.forall_mem_cons.mpr ⟨hc, hall⟩⟩
  · cases h.symm.trans heq

/-- The truth of a neutral constant. -/
theorem truthValue_of_neutral {e : Expression ρ O Q A} {row : ρ} (h : neutral type e = true) :
    e.truthValue ops row = .ok !stopValue type := by
  have hconst : e.boolConstant = some !stopValue type := beq_iff_eq.mp h
  unfold Expression.boolConstant at hconst
  split at hconst
  · cases hconst
    rfl
  · cases hconst

/-- Fewer children are not larger, for the termination of the rules. -/
theorem sizeOf_filter_le (p : Expression ρ O Q A → Bool) :
    sizeOf (children.filter p) ≤ sizeOf children := by
  induction children with
  | nil => exact le_refl _
  | cons c children ih =>
    cases hp : p c with
    | true =>
      rw [List.filter_cons_of_pos hp, List.cons.sizeOf_spec, List.cons.sizeOf_spec]
      omega
    | false =>
      rw [List.filter_cons_of_neg (by rw [hp]; exact Bool.false_ne_true), List.cons.sizeOf_spec]
      omega

theorem conjunctionRule_decided (h : simplifyChildren type [] children = .decided front) :
    conjunctionRule (.conjunction type children) = (front, false) := by
  simp only [conjunctionRule, h]

theorem conjunctionRule_single (h : simplifyChildren type [] children = .remaining [front]) :
    conjunctionRule (.conjunction type children) = (front, true) := by
  simp only [conjunctionRule, h]

theorem conjunctionRule_kept (h : simplifyChildren type [] children = .remaining kept)
    (hne : ∀ c, kept ≠ [c]) : conjunctionRule (.conjunction type children) = (.conjunction type kept, false) := by
  simp only [conjunctionRule, h]

/-- What the rule makes of a conjunction. -/
theorem conjunctionRule_cases (type : ConjunctionType) (children : List (Expression ρ O Q A)) :
    (∃ front, simplifyChildren type [] children = .decided front ∧
      conjunctionRule (.conjunction type children) = (front, false)) ∨
    (∃ c, simplifyChildren type [] children = .remaining [c] ∧
      conjunctionRule (.conjunction type children) = (c, true)) ∨
    ∃ kept, simplifyChildren type [] children = .remaining kept ∧
      conjunctionRule (.conjunction type children) = (.conjunction type kept, false) := by
  cases h : simplifyChildren type [] children with
  | decided front => exact Or.inl ⟨front, rfl, conjunctionRule_decided h⟩
  | remaining kept =>
    by_cases hone : ∃ c, kept = [c]
    · obtain ⟨c, rfl⟩ := hone
      exact Or.inr (Or.inl ⟨c, rfl, conjunctionRule_single h⟩)
    · exact Or.inr (Or.inr ⟨kept, rfl, conjunctionRule_kept h fun c hc => hone ⟨c, hc⟩⟩)

/-- The rule makes no expression larger. -/
theorem sizeOf_conjunctionRule (e : Expression ρ O Q A) : sizeOf (conjunctionRule e).1 ≤ sizeOf e := by
  cases e with
  | conjunction type children =>
    have hsize : ∀ es : List (Expression ρ O Q A),
        sizeOf (Expression.conjunction type es) = 1 + sizeOf type + sizeOf es := fun es => by simp
    rw [hsize]
    have hfilter : ∀ kept, simplifyChildren type [] children = .remaining kept →
        sizeOf kept ≤ sizeOf children := by
      intro kept h
      rw [remaining_eq h]
      exact sizeOf_filter_le _
    rcases conjunctionRule_cases type children with ⟨front, h, heq⟩ | ⟨c, h, heq⟩ | ⟨kept, h, heq⟩
    · obtain ⟨xs, ys, rfl, -⟩ := decided_eq h
      have hmem := List.sizeOf_lt_of_mem (List.mem_append_right xs (@List.mem_cons_self _ front ys))
      rw [heq]
      dsimp only
      omega
    · have hle := hfilter _ h
      rw [List.cons.sizeOf_spec] at hle
      rw [heq]
      dsimp only
      omega
    · have hle := hfilter _ h
      rw [heq]
      dsimp only
      rw [hsize]
      omega
  | _ => exact le_refl _

/-- What the rule has not changed is the same. -/
theorem comparisonRule_unchanged {e : Expression ρ O Q A} (h : (comparisonRule ops e).2 = false) :
    (comparisonRule ops e).1 = e := by
  cases e with
  | comparison comp left right =>
    cases hvalue : tryGetValue ops comp left right with
    | none => simp only [comparisonRule, hvalue]
    | some b => simp only [comparisonRule, hvalue, Bool.true_eq_false] at h
  | _ => rfl

/-- A pass goes into nothing larger. -/
theorem sizeOf_applyRules {e : Expression ρ O Q A} (h : (applyRules ops e).2 = false) :
    sizeOf (applyRules ops e).1 ≤ sizeOf e := by
  have hsame := comparisonRule_unchanged (Bool.or_eq_false_iff.mp h).1
  have hle := sizeOf_conjunctionRule (comparisonRule ops e).1
  rw [hsame] at hle
  show sizeOf (conjunctionRule (comparisonRule ops e).1).1 ≤ _
  rw [hsame]
  exact hle

end Loop

/-! ## A pass -/

section Pass

variable (ops : Operations ρ O Q A)

mutual

/-- `ExpressionRewriter::rewrite_expression`; the return code is always SUCCESS. -/
def rewriteExpression (e : Expression ρ O Q A) : Except Fault (Expression ρ O Q A × Bool) :=
  if _h : (applyRules ops e).2 = true then .ok ((applyRules ops e).1, true)
  else rewriteParts (applyRules ops e).1
termination_by (sizeOf e, 1)
decreasing_by
  have := sizeOf_applyRules (Bool.not_eq_true _ ▸ _h)
  rw [Prod.lex_def]
  omega

/-- The `switch` over the types. -/
def rewriteParts : Expression ρ O Q A → Except Fault (Expression ρ O Q A × Bool)
  | .cast child castType => (rewriteExpression child).map fun r => (.cast r.1 castType, r.2)
  | .comparison comp left right =>
    (rewriteExpression left).bind fun l =>
      (rewriteExpression right).map fun r => (.comparison comp l.1 r.1, l.2 || r.2)
  | .inSet negated left right => (rewriteExpression left).map fun l => (.inSet negated l.1 right, l.2)
  -- the right side is null, and its type is asked for
  | .existsSet _ _ => .error .nullExpression
  | .conjunction type children => (rewriteChildren children).map fun r => (.conjunction type r.1, r.2)
  | e => .ok (e, false)
termination_by e => (sizeOf e, 0)

/-- The loop over the children of a conjunction. -/
def rewriteChildren : List (Expression ρ O Q A) → Except Fault (List (Expression ρ O Q A) × Bool)
  | [] => .ok ([], false)
  | c :: children =>
    (rewriteExpression c).bind fun r => (rewriteChildren children).map fun rs => (r.1 :: rs.1, r.2 || rs.2)
termination_by children => (sizeOf children, 0)

end

end Pass

/-! ## What a pass should keep -/

section Keep

variable (ops : Operations ρ O Q A)

/-- In every row the value is the same, as an expression and as a side of a comparison; below a conjunction only
    the truth counts. -/
def Same (truthOnly : Bool) (e e' : Expression ρ O Q A) : Prop :=
  ∀ row, e.truthValue ops row = e'.truthValue ops row ∧
    (truthOnly = false → e.getValue ops row = e'.getValue ops row ∧ e.sideValue ops row = e'.sideValue ops row)

/-- The expression is no subquery, and its value is a BOOLEAN wherever it has one. -/
def IsBoolean (e : Expression ρ O Q A) : Prop :=
  e.asQuery = none ∧ ∀ row v, e.getValue ops row = .ok v → ∃ b, v = .boolean b

/-- What `ConjunctionSimplificationRule` makes of a conjunction answers like it. -/
def RuleSafe (truthOnly : Bool) : Expression ρ O Q A → Prop
  | .conjunction type children =>
    match simplifyChildren type [] children with
    | .decided front =>
      (∀ row b, front.truthValue ops row = .ok b → b = stopValue type) ∧ (truthOnly = false → IsBoolean ops front)
    | .remaining [c] => truthOnly = false → IsBoolean ops c
    | .remaining kept => type = .or → children ≠ [] → kept ≠ []
  | _ => True

/-- A pass over the expression (or with `inside`, over its parts) meets only conjunctions that are simplified as
    they should, and no EXISTS. -/
inductive Safe : (inside truthOnly : Bool) → Expression ρ O Q A → Prop
  | changed {truthOnly : Bool} {e : Expression ρ O Q A} :
      RuleSafe ops truthOnly e → (applyRules ops e).2 = true → Safe false truthOnly e
  | parts {truthOnly : Bool} {e : Expression ρ O Q A} :
      RuleSafe ops truthOnly e → (applyRules ops e).2 = false → Safe true truthOnly (applyRules ops e).1 →
      Safe false truthOnly e
  | value {truthOnly : Bool} (v : Value O) : Safe true truthOnly (.value v)
  | field {truthOnly : Bool} (read : ρ → Except RC (Value O)) : Safe true truthOnly (.field read)
  | subquery {truthOnly : Bool} (query : Q) : Safe true truthOnly (.subquery query)
  | other {truthOnly : Bool} (read : ρ → Except RC (Value O)) : Safe true truthOnly (.other read)
  | cast {truthOnly : Bool} {child : Expression ρ O Q A} (castType : A) :
      Safe false false child → Safe true truthOnly (.cast child castType)
  | comparison {truthOnly : Bool} {left right : Expression ρ O Q A} (comp : CompOp) :
      Safe false false left → Safe false false right → Safe true truthOnly (.comparison comp left right)
  | inSet {truthOnly : Bool} {left : Expression ρ O Q A} (negated : Bool) (right : Q) :
      Safe false false left → Safe true truthOnly (.inSet negated left right)
  | conjunction {truthOnly : Bool} {children : List (Expression ρ O Q A)} (type : ConjunctionType) :
      (∀ c ∈ children, Safe false true c) → Safe true truthOnly (.conjunction type children)

end Keep

/-! ## The rules keep it -/

section Rules

variable {ops : Operations ρ O Q A} {truthOnly : Bool} {e e' e'' : Expression ρ O Q A}

theorem Same.refl (e : Expression ρ O Q A) : Same ops truthOnly e e := fun _ => ⟨rfl, fun _ => ⟨rfl, rfl⟩⟩

theorem Same.trans (h : Same ops truthOnly e e') (h' : Same ops truthOnly e' e'') : Same ops truthOnly e e'' :=
  fun row => ⟨(h row).1.trans (h' row).1, fun ht =>
    ⟨((h row).2 ht).1.trans ((h' row).2 ht).1, ((h row).2 ht).2.trans ((h' row).2 ht).2⟩⟩

/-- Expressions that are no subqueries have one value only. -/
theorem same_of_getValue (hq : e.asQuery = none) (hq' : e'.asQuery = none)
    (h : ∀ row, e.getValue ops row = e'.getValue ops row) : Same ops truthOnly e e' := by
  intro row
  refine ⟨congrArg (Except.map ops.truth) (h row), fun _ => ⟨h row, ?_⟩⟩
  unfold Expression.sideValue
  rw [hq, hq']
  exact h row

/-- A conjunction and an expression with its truth. -/
theorem same_conjunction {type : ConjunctionType} {children : List (Expression ρ O Q A)}
    (hor : type = .or → children ≠ []) (hboolean : truthOnly = false → IsBoolean ops e)
    (h : ∀ row, shortCircuit (stopValue type) (children.map (Expression.truthValue ops row)) = e.truthValue ops row) :
    Same ops truthOnly (.conjunction type children) e := by
  cases truthOnly with
  | true => exact fun row => ⟨(truthValue_conjunction hor).trans (h row), Bool.noConfusion⟩
  | false =>
    obtain ⟨hquery, hvalue⟩ := hboolean rfl
    refine same_of_getValue rfl hquery fun row => ?_
    rw [getValue_conjunction hor, h row]
    unfold Expression.truthValue
    cases hv : e.getValue ops row with
    | error rc => rfl
    | ok v =>
      obtain ⟨b, rfl⟩ := hvalue row v hv
      rfl

/-- Two constants are compared as they would be in a row. -/
theorem comparisonRule_same (e : Expression ρ O Q A) : Same ops truthOnly e (comparisonRule ops e).1 := by
  cases e with
  | comparison comp left right =>
    cases hvalue : tryGetValue ops comp left right with
    | none =>
      simp only [comparisonRule, hvalue]
      exact .refl _
    | some b =>
      simp only [comparisonRule, hvalue]
      refine same_of_getValue rfl rfl fun row => ?_
      unfold tryGetValue at hvalue
      split at hvalue
      · rename_i l r
        cases hcompare : ops.compareValue comp l r with
        | error rc =>
          rw [hcompare] at hvalue
          cases hvalue
        | ok b' =>
          rw [hcompare] at hvalue
          cases hvalue
          show (ops.compareValue comp l r).map Value.boolean = _
          rw [hcompare]
          rfl
      · cases hvalue
  | _ => exact .refl _

/-- Without the neutral constants. -/
theorem shortCircuit_kept {type : ConjunctionType} {children kept : List (Expression ρ O Q A)} (row : ρ)
    (h : simplifyChildren type [] children = .remaining kept) :
    shortCircuit (stopValue type) (children.map (Expression.truthValue ops row)) =
      shortCircuit (stopValue type) (kept.map (Expression.truthValue ops row)) := by
  rw [remaining_eq h]
  refine (shortCircuit_filter _ _ _ fun c _ hc => ?_).symm
  exact truthValue_of_neutral (by simpa using hc)

theorem ruleSafe_kept {type : ConjunctionType} {children kept : List (Expression ρ O Q A)}
    (hs : simplifyChildren type [] children = .remaining kept) (hone : ∀ c, kept ≠ [c])
    (h : RuleSafe ops truthOnly (.conjunction type children)) : type = .or → children ≠ [] → kept ≠ [] := by
  simp only [RuleSafe, hs] at h
  cases kept with
  | nil => exact h
  | cons c rest => exact fun _ _ => List.cons_ne_nil c rest

/-- Under its condition the rule keeps the truth of a conjunction. -/
theorem conjunctionRule_same (h : RuleSafe ops truthOnly e) : Same ops truthOnly e (conjunctionRule e).1 := by
  cases e with
  | conjunction type children =>
    rcases conjunctionRule_cases type children with ⟨front, hs, heq⟩ | ⟨c, hs, heq⟩ | ⟨kept, hs, heq⟩
    · simp only [RuleSafe, hs] at h
      obtain ⟨xs, ys, rfl, hneutral⟩ := decided_eq hs
      rw [heq]
      refine same_conjunction (fun _ => by simp) h.2 fun row => ?_
      -- the constants in front of the child are neutral, and the child decides
      have hskip : shortCircuit (stopValue type) ((xs ++ front :: ys).map (Expression.truthValue ops row)) =
          shortCircuit (stopValue type) ((front :: ys).map (Expression.truthValue ops row)) := by
        clear hs heq
        induction xs with
        | nil => rfl
        | cons c xs ih =>
          obtain ⟨hc, hxs⟩ := List.forall_mem_cons.mp hneutral
          rw [List.cons_append, List.map_cons, truthValue_of_neutral hc, shortCircuit_neutral, ih hxs]
      rw [hskip, List.map_cons]
      exact shortCircuit_of_first (h.1 row)
    · simp only [RuleSafe, hs] at h
      have hne : children ≠ [] := by
        rintro rfl
        cases hs
      rw [heq]
      refine same_conjunction (fun _ => hne) h fun row => ?_
      rw [shortCircuit_kept row hs]
      exact shortCircuit_singleton
    · rw [heq]
      by_cases hone : ∃ c, kept = [c]
      · -- then the rule gives the child
        obtain ⟨c, rfl⟩ := hone
        rw [conjunctionRule_single hs] at heq
        exact absurd (congrArg Prod.snd heq) (by simp)
      · have hkept := ruleSafe_kept hs (fun c hc => hone ⟨c, hc⟩) h
        by_cases hempty : type = .or ∧ children = []
        · obtain ⟨rfl, rfl⟩ := hempty
          cases hs
          exact .refl _
        · have hor : type = .or → children ≠ [] := fun ht hc => hempty ⟨ht, hc⟩
          refine same_conjunction hor (fun _ => ⟨rfl, fun row v hv => ?_⟩) fun row => ?_
          · rw [getValue_conjunction fun ht => hkept ht (hor ht)] at hv
            cases hshort : shortCircuit (stopValue type) (kept.map (Expression.truthValue ops row)) with
            | error rc =>
              rw [hshort] at hv
              cases hv
            | ok b =>
              rw [hshort] at hv
              exact ⟨b, (Except.ok.inj hv).symm⟩
          · rw [shortCircuit_kept row hs, truthValue_conjunction fun ht => hkept ht (hor ht)]
  | _ => exact .refl _

end Rules

/-! ## A pass keeps it -/

section Congruence

variable {ops : Operations ρ O Q A} {truthOnly : Bool} {child child' left left' right right' : Expression ρ O Q A}
  {children children' : List (Expression ρ O Q A)}

theorem same_cast (castType : A) (h : Same ops false child child') :
    Same ops truthOnly (.cast child castType) (.cast child' castType) := by
  refine same_of_getValue rfl rfl fun row => ?_
  rw [Expression.getValue, Expression.getValue, ((h row).2 rfl).1]

theorem same_comparison (comp : CompOp) (hl : Same ops false left left') (hr : Same ops false right right') :
    Same ops truthOnly (.comparison comp left right) (.comparison comp left' right') := by
  refine same_of_getValue rfl rfl fun row => ?_
  rw [getValue_comparison, getValue_comparison, ((hl row).2 rfl).2, ((hr row).2 rfl).2]

theorem same_inSet (negated : Bool) (query : Q) (h : Same ops false left left') :
    Same ops truthOnly (.inSet negated left query) (.inSet negated left' query) := by
  refine same_of_getValue rfl rfl fun row => ?_
  rw [Expression.getValue, Expression.getValue, ((h row).2 rfl).1]

/-- The children are only asked for their truth. -/
theorem same_children (type : ConjunctionType) (h : List.Forall₂ (Same ops true) children children') :
    Same ops truthOnly (.conjunction type children) (.conjunction type children') := by
  refine same_of_getValue rfl rfl fun row => ?_
  have htruth : childrenTruth ops row children = childrenTruth ops row children' := by
    rw [childrenTruth_eq, childrenTruth_eq]
    induction h with
    | nil => rfl
    | cons hc _ ih => rw [List.map_cons, List.map_cons, (hc row).1, ih]
  have hempty : children.isEmpty = children'.isEmpty := by
    cases h <;> rfl
  rw [Expression.getValue, Expression.getValue, hempty, htruth]

end Congruence

section Pass

variable {ops : Operations ρ O Q A} {truthOnly inside : Bool} {e : Expression ρ O Q A}
  {children : List (Expression ρ O Q A)}

/-- The pass (or with `inside`, the `switch`) goes through and keeps the value. -/
def PassKeeps (ops : Operations ρ O Q A) (inside truthOnly : Bool) (e : Expression ρ O Q A) : Prop :=
  ∃ e' changed, (bif inside then rewriteParts ops e else rewriteExpression ops e) = .ok (e', changed) ∧
    Same ops truthOnly e e'

/-- The induction on the children of a conjunction. -/
theorem rewriteChildren_keeps (h : ∀ c ∈ children, PassKeeps ops false true c) :
    ∃ children' changed, rewriteChildren ops children = .ok (children', changed) ∧
      List.Forall₂ (Same ops true) children children' := by
  induction children with
  | nil => exact ⟨[], false, by rw [rewriteChildren], .nil⟩
  | cons c children ih =>
    obtain ⟨hc, hrest⟩ := List.forall_mem_cons.mp h
    obtain ⟨c', changed, hok, hsame⟩ := hc
    obtain ⟨children', changed', hok', hsame'⟩ := ih hrest
    have hok : rewriteExpression ops c = .ok (c', changed) := hok
    refine ⟨c' :: children', changed || changed', ?_, .cons hsame hsame'⟩
    rw [rewriteChildren, hok, hok']
    rfl

/-- Both rules, one after the other. -/
theorem applyRules_same (h : RuleSafe ops truthOnly e) : Same ops truthOnly e (applyRules ops e).1 := by
  cases e with
  | conjunction type children => exact conjunctionRule_same h
  | comparison comp left right =>
    have hrule := @comparisonRule_same ρ O Q A ops truthOnly (.comparison comp left right)
    -- the first rule gives a comparison or a constant, which the second leaves
    cases hvalue : tryGetValue ops comp left right with
    | none =>
      simp only [applyRules, comparisonRule, hvalue, conjunctionRule] at hrule ⊢
      exact hrule
    | some b =>
      simp only [applyRules, comparisonRule, hvalue, conjunctionRule] at hrule ⊢
      exact hrule
  | _ => exact .refl _

/-- A pass that is safe goes through and keeps the value. -/
theorem passKeeps_of_safe (h : Safe ops inside truthOnly e) : PassKeeps ops inside truthOnly e := by
  induction h with
  | changed hrule hchanged =>
    refine ⟨_, true, ?_, applyRules_same hrule⟩
    rw [cond_false, rewriteExpression, dif_pos hchanged]
  | parts hrule hchanged _ ih =>
    obtain ⟨e', changed, hok, hsame⟩ := ih
    refine ⟨e', changed, ?_, (applyRules_same hrule).trans hsame⟩
    rw [cond_false, rewriteExpression, dif_neg (by rw [hchanged]; exact Bool.false_ne_true)]
    exact hok
  | value v => exact ⟨_, false, by rw [cond_true, rewriteParts] <;> simp, .refl _⟩
  | field read => exact ⟨_, false, by rw [cond_true, rewriteParts] <;> simp, .refl _⟩
  | subquery query => exact ⟨_, false, by rw [cond_true, rewriteParts] <;> simp, .refl _⟩
  | other read => exact ⟨_, false, by rw [cond_true, rewriteParts] <;> simp, .refl _⟩
  | cast castType _ ih =>
    obtain ⟨e', changed, hok, hsame⟩ := ih
    have hok : rewriteExpression ops _ = .ok (e', changed) := hok
    refine ⟨.cast e' castType, changed, ?_, same_cast castType hsame⟩
    rw [cond_true, rewriteParts, hok]
    rfl
  | comparison comp _ _ ihl ihr =>
    obtain ⟨l, lchanged, hl, hlsame⟩ := ihl
    obtain ⟨r, rchanged, hr, hrsame⟩ := ihr
    have hl : rewriteExpression ops _ = .ok (l, lchanged) := hl
    have hr : rewriteExpression ops _ = .ok (r, rchanged) := hr
    refine ⟨.comparison comp l r, lchanged || rchanged, ?_, same_comparison comp hlsame hrsame⟩
    rw [cond_true, rewriteParts, hl, hr]
    rfl
  | inSet negated right _ ih =>
    obtain ⟨e', changed, hok, hsame⟩ := ih
    have hok : rewriteExpression ops _ = .ok (e', changed) := hok
    refine ⟨.inSet negated e' right, changed, ?_, same_inSet negated right hsame⟩
    rw [cond_true, rewriteParts, hok]
    rfl
  | conjunction type _ ih =>
    obtain ⟨children', changed, hok, hsame⟩ := rewriteChildren_keeps ih
    refine ⟨.conjunction type children', changed, ?_, same_children type hsame⟩
    rw [cond_true, rewriteParts, hok]
    rfl

end Pass

/-! ## Operators and passes -/

/-- `LogicalOperator` with its expressions and children. -/
inductive LogicalOperator (ρ O Q A : Type) where
  | mk (expressions : List (Expression ρ O Q A)) (children : List (LogicalOperator ρ O Q A))

section Rewriter

variable (ops : Operations ρ O Q A)

mutual

/-- `ExpressionRewriter::rewrite`. -/
def rewriteOperator : LogicalOperator ρ O Q A → Except Fault (LogicalOperator ρ O Q A × Bool)
  | .mk expressions children =>
    (rewriteChildren ops expressions).bind fun es =>
      (rewriteOperators children).map fun cs => (.mk es.1 cs.1, es.2 || cs.2)

def rewriteOperators : List (LogicalOperator ρ O Q A) → Except Fault (List (LogicalOperator ρ O Q A) × Bool)
  | [] => .ok ([], false)
  | op :: children =>
    (rewriteOperator op).bind fun r => (rewriteOperators children).map fun rs => (r.1 :: rs.1, r.2 || rs.2)

/-- A pass over the operator and those below it meets nothing that goes wrong. -/
def SafeOperator : LogicalOperator ρ O Q A → Prop
  | .mk expressions children => (∀ e ∈ expressions, Safe ops false false e) ∧ SafeOperators children

def SafeOperators : List (LogicalOperator ρ O Q A) → Prop
  | [] => True
  | op :: children => SafeOperator op ∧ SafeOperators children

end

/-- In every row the value is the same. -/
def SameValue (e e' : Expression ρ O Q A) : Prop := ∀ row, e.getValue ops row = e'.getValue ops row

mutual

/-- The same operators, and each expression has the same value as before in every row. -/
inductive SameOperator : LogicalOperator ρ O Q A → LogicalOperator ρ O Q A → Prop
  | mk {es es' : List (Expression ρ O Q A)} {cs cs' : List (LogicalOperator ρ O Q A)} :
      List.Forall₂ (SameValue ops) es es' →
      SameOperators cs cs' → SameOperator (.mk es cs) (.mk es' cs')

inductive SameOperators : List (LogicalOperator ρ O Q A) → List (LogicalOperator ρ O Q A) → Prop
  | nil : SameOperators [] []
  | cons {op op' : LogicalOperator ρ O Q A} {ops ops' : List (LogicalOperator ρ O Q A)} :
      SameOperator op op' → SameOperators ops ops' → SameOperators (op :: ops) (op' :: ops')

end

/-- Passes of the rewriter, one after the other. -/
def passes : Nat → LogicalOperator ρ O Q A → Except Fault (LogicalOperator ρ O Q A)
  | 0, op => .ok op
  | n + 1, op => (passes n op).bind fun op' => (rewriteOperator ops op').map Prod.fst

end Rewriter

section

variable {ops : Operations ρ O Q A} {children : List (Expression ρ O Q A)}

/-- The expressions of an operator, one by one. -/
theorem rewriteExpressions_keep (h : ∀ c ∈ children, Safe ops false false c) :
    ∃ children' changed, rewriteChildren ops children = .ok (children', changed) ∧
      List.Forall₂ (SameValue ops) children children' := by
  induction children with
  | nil => exact ⟨[], false, by rw [rewriteChildren], .nil⟩
  | cons c children ih =>
    obtain ⟨hc, hrest⟩ := List.forall_mem_cons.mp h
    obtain ⟨c', changed, hok, hsame⟩ := passKeeps_of_safe hc
    obtain ⟨children', changed', hok', hsame'⟩ := ih hrest
    have hok : rewriteExpression ops c = .ok (c', changed) := hok
    refine ⟨c' :: children', changed || changed', ?_, .cons (fun row => ((hsame row).2 rfl).1) hsame'⟩
    rw [rewriteChildren, hok, hok']
    rfl

mutual

/-- An operator, with those below it. -/
theorem rewriteOperator_keeps (op : LogicalOperator ρ O Q A) (h : SafeOperator ops op) :
    ∃ op' changed, rewriteOperator ops op = .ok (op', changed) ∧ SameOperator ops op op' := by
  cases op with
  | mk expressions children =>
    rw [SafeOperator] at h
    obtain ⟨es, changed, hes, hsame⟩ := rewriteExpressions_keep h.1
    obtain ⟨cs, changed', hcs, hsame'⟩ := rewriteOperators_keep children h.2
    refine ⟨.mk es cs, changed || changed', ?_, .mk hsame hsame'⟩
    rw [rewriteOperator, hes, hcs]
    rfl

/-- The induction on the operators below. -/
theorem rewriteOperators_keep (children : List (LogicalOperator ρ O Q A)) (h : SafeOperators ops children) :
    ∃ children' changed, rewriteOperators ops children = .ok (children', changed) ∧
      SameOperators ops children children' := by
  cases children with
  | nil => exact ⟨[], false, by rw [rewriteOperators], .nil⟩
  | cons op children =>
    rw [SafeOperators] at h
    obtain ⟨op', changed, hop, hsame⟩ := rewriteOperator_keeps op h.1
    obtain ⟨cs, changed', hcs, hsame'⟩ := rewriteOperators_keep children h.2
    refine ⟨op' :: cs, changed || changed', ?_, .cons hsame hsame'⟩
    rw [rewriteOperators, hop, hcs]
    rfl

end

mutual

theorem SameOperator.refl (op : LogicalOperator ρ O Q A) : SameOperator ops op op := by
  cases op with
  | mk expressions children =>
    exact .mk (List.forall₂_same.mpr fun e _ row => rfl) (SameOperators.refl children)

theorem SameOperators.refl (children : List (LogicalOperator ρ O Q A)) :
    SameOperators ops children children := by
  cases children with
  | nil => exact .nil
  | cons op children => exact .cons (SameOperator.refl op) (SameOperators.refl children)

end

theorem sameValue_trans {es es' es'' : List (Expression ρ O Q A)} (h : List.Forall₂ (SameValue ops) es es')
    (h' : List.Forall₂ (SameValue ops) es' es'') : List.Forall₂ (SameValue ops) es es'' := by
  induction h generalizing es'' with
  | nil => exact h'
  | cons hhead _ ih =>
    cases h' with
    | cons hhead' htail' => exact .cons (fun row => (hhead row).trans (hhead' row)) (ih htail')

mutual

theorem SameOperator.trans {op op' op'' : LogicalOperator ρ O Q A} (h : SameOperator ops op op')
    (h' : SameOperator ops op' op'') : SameOperator ops op op'' := by
  cases h with
  | mk hes hcs =>
    cases h' with
    | mk hes' hcs' =>
      exact .mk (sameValue_trans hes hes') (hcs.trans hcs')

theorem SameOperators.trans {cs cs' cs'' : List (LogicalOperator ρ O Q A)} (h : SameOperators ops cs cs')
    (h' : SameOperators ops cs' cs'') : SameOperators ops cs cs'' := by
  cases h with
  | nil => exact h'
  | cons hop hcs =>
    cases h' with
    | cons hop' hcs' => exact .cons (hop.trans hop') (hcs.trans hcs')

end

/-- If no pass meets anything that goes wrong, the passes go through, and every expression that is left in place has
    the value of the original in every row. -/
theorem passes_keep (n : Nat) (op : LogicalOperator ρ O Q A)
    (hsafe : ∀ m op', m < n → passes ops m op = .ok op' → SafeOperator ops op') :
    ∃ op', passes ops n op = .ok op' ∧ SameOperator ops op op' := by
  induction n with
  | zero => exact ⟨op, rfl, .refl op⟩
  | succ n ih =>
    obtain ⟨op', hok, hsame⟩ := ih fun m op' hm => hsafe m op' (Nat.lt_succ_of_lt hm)
    obtain ⟨op'', changed, hpass, hsame'⟩ := rewriteOperator_keeps op' (hsafe n op' (Nat.lt_succ_self n) hok)
    refine ⟨op'', ?_, hsame.trans hsame'⟩
    rw [passes, hok]
    show (rewriteOperator ops op').map Prod.fst = _
    rw [hpass]
    rfl

end

/-! ## One column -/

/-- `compare_value` of two INTs that are not NULL. -/
def compareInts (comp : CompOp) (left right : Int32) : Except RC Bool :=
  match comp with
  | .equalTo => .ok (left = right)
  | .lessEqual => .ok (left ≤ right)
  | .notEqual => .ok (left ≠ right)
  | .lessThan => .ok (left < right)
  | .greatEqual => .ok (right ≤ left)
  | .greatThan => .ok (right < left)
  | _ => .error .internal

/-- Rows of one INT, and no subqueries. -/
def integers : Operations Int32 Int32 Empty Unit where
  getBoolean v := v ≠ 0
  compareValue comp
    | .other left, .other right => compareInts comp left right
    | _, _ => .error .internal
  castTo _ v := .ok v
  scalarQuery q _ := q.elim
  inQuery _ q _ := q.elim
  existsQuery q _ := q.elim
  queryValue q _ := q.elim

theorem boolean_of_map {x : Except RC Bool} {v : Value O} (h : x.map .boolean = .ok v) : ∃ b, v = .boolean b := by
  cases x with
  | error rc => cases h
  | ok b => exact ⟨b, (Except.ok.inj h).symm⟩

/-- `a = 1`. -/
def isOne : Expression Int32 Int32 Empty Unit :=
  .comparison .equalTo (.field fun a => .ok (.other a)) (.value (.other 1))

theorem isBoolean_isOne : IsBoolean integers isOne :=
  ⟨rfl, fun row _ hv => ⟨decide (row = 1), (Except.ok.inj hv).symm⟩⟩

/-- `(true AND a = 1) OR false` takes two passes to become `a = 1`. -/
theorem passes_keep_column : ∃ op', passes integers 2 (.mk [.conjunction .or [.conjunction .and
      [.value (.boolean true), isOne], .value (.boolean false)]] []) = .ok op' ∧
    SameOperator integers (.mk [.conjunction .or [.conjunction .and [.value (.boolean true), isOne],
      .value (.boolean false)]] []) op' := by
  refine passes_keep 2 _ fun m op' hm hpass => ?_
  have hm : m = 0 ∨ m = 1 := by omega
  rcases hm with rfl | rfl
  · cases hpass
    rw [SafeOperator, SafeOperators]
    refine ⟨?_, trivial⟩
    rw [List.forall_mem_singleton]
    refine .changed (fun _ => ⟨rfl, fun row v hv => ?_⟩) rfl
    rw [getValue_conjunction fun h => ConjunctionType.noConfusion h] at hv
    exact boolean_of_map hv
  · have hfirst : passes integers 1 (.mk [.conjunction .or [.conjunction .and
          [.value (.boolean true), isOne], .value (.boolean false)]] []) =
        .ok (.mk [.conjunction .and [.value (.boolean true), isOne]] []) := by
      simp only [passes, rewriteOperator, rewriteOperators, rewriteChildren, rewriteExpression, Except.bind, Except.map]
      rfl
    cases hfirst.symm.trans hpass
    rw [SafeOperator, SafeOperators]
    refine ⟨?_, trivial⟩
    rw [List.forall_mem_singleton]
    exact .changed (fun _ => isBoolean_isOne) rfl

/-- `a = 1 AND false` becomes `a = 1`. -/
theorem passes_lose_false : ¬ ∀ op' : LogicalOperator Int32 Int32 Empty Unit,
    passes integers 1 (.mk [.conjunction .and [isOne, .value (.boolean false)]] []) = .ok op' →
      SameOperator integers (.mk [.conjunction .and [isOne, .value (.boolean false)]] []) op' := by
  intro h
  have hpass : passes integers 1 (.mk [.conjunction .and [isOne, .value (.boolean false)]] []) =
      .ok (.mk [isOne] []) := by
    have hleaf : ∀ e : Expression Int32 Int32 Empty Unit, applyRules integers e = (e, false) →
        rewriteParts integers e = .ok (e, false) → rewriteExpression integers e = .ok (e, false) := by
      intro e hrules hparts
      rw [rewriteExpression, hrules, dif_neg Bool.false_ne_true, hparts]
    have hparts : rewriteParts integers isOne = .ok (isOne, false) := by
      rw [isOne, rewriteParts, hleaf (.field _) rfl (by simp [rewriteParts]),
        hleaf (.value _) rfl (by simp [rewriteParts])]
      rfl
    have hrules : applyRules integers (.conjunction .and [isOne, .value (.boolean false)]) = (isOne, false) := rfl
    simp only [passes, rewriteOperator, rewriteOperators, rewriteChildren, rewriteExpression, hrules, hparts, Except.bind,
      Except.map]
    rfl
  cases h _ hpass with
  | mk hes _ =>
    cases hes with
    | cons hvalue _ =>
      -- in the row of 1
      have htrue := hvalue 1
      rw [getValue_conjunction fun h => ConjunctionType.noConfusion h] at htrue
      exact Bool.false_ne_true (Value.boolean.inj (Except.ok.inj htrue))

end Miniob.Optimizer
