/-
  Predicate pushdown (`predicate_pushdown_rewriter.cpp`).

  1. `getExprsCanPushdown` takes the comparisons with a column out of the nested ANDs.  Seen as the list of its
     conjuncts (`conjuncts`), the predicate loses those in front of the first OR (`Walk.Spec`).
  2. At an OR the walk ends with UNIMPLEMENTED.  What it has taken out by then is neither in the predicate any
     more nor on the scan: the rows are not tested for it.
  3. `set_predicates` replaces the predicates that the scan has.
  4. At an EXISTS the right side is null, and its type is asked for.

  A row that gives an error does not pass; `Passes` is what a plan lets through.
-/
import Miniob.Optimizer.Expression

namespace Miniob.Optimizer

open Miniob.Common Miniob.Expr

variable {ρ O Q A : Type}

/-! ## The walk -/

namespace Expression

/-- `type() == ExprType::FIELD`. -/
def isField : Expression ρ O Q A → Bool
  | field _ => true
  | _ => false

/-- `type() == ExprType::VALUE`. -/
def isValue : Expression ρ O Q A → Bool
  | value _ => true
  | _ => false

/-- `children().empty()` of a conjunction. -/
def isEmptyConjunction : Expression ρ O Q A → Bool
  | conjunction _ children => children.isEmpty
  | _ => false

end Expression

/-- What is left of the expression, unless it has been moved out; `pushdown_exprs`; and the return code. -/
structure Walk (ρ O Q A : Type) where
  expr : Option (Expression ρ O Q A)
  pushdown : List (Expression ρ O Q A)
  rc : Except RC Unit

/-- The same for the children. -/
structure ChildrenWalk (ρ O Q A : Type) where
  children : List (Expression ρ O Q A)
  pushdown : List (Expression ρ O Q A)
  rc : Except RC Unit

mutual

/-- `get_exprs_can_pushdown`. -/
def getExprsCanPushdown (pushdown : List (Expression ρ O Q A)) :
    Expression ρ O Q A → Except Fault (Walk ρ O Q A)
  | .conjunction .or children => .ok ⟨some (.conjunction .or children), pushdown, .error .unimplemented⟩
  | .conjunction .and children =>
    (walkChildren pushdown children).map fun w => ⟨some (.conjunction .and w.children), w.pushdown, w.rc⟩
  | .comparison comp left right =>
    if !left.isField && !right.isField then .ok ⟨some (.comparison comp left right), pushdown, .ok ()⟩
    else if !left.isField && !left.isValue && !right.isField && !right.isValue then
      .ok ⟨some (.comparison comp left right), pushdown, .ok ()⟩
    else .ok ⟨none, pushdown ++ [.comparison comp left right], .ok ()⟩
  -- the right side is a subquery or a list of values
  | .inSet negated left right =>
    if left.isField then .ok ⟨none, pushdown ++ [.inSet negated left right], .ok ()⟩
    else .ok ⟨some (.inSet negated left right), pushdown, .ok ()⟩
  -- the left side is a subquery, so the type of the right one is asked for
  | .existsSet _ _ => .error .nullExpression
  | e => .ok ⟨some e, pushdown, .ok ()⟩

/-- The loop over the children. -/
def walkChildren (pushdown : List (Expression ρ O Q A)) :
    List (Expression ρ O Q A) → Except Fault (ChildrenWalk ρ O Q A)
  | [] => .ok ⟨[], pushdown, .ok ()⟩
  | c :: children =>
    (getExprsCanPushdown pushdown c).bind fun w =>
      match w.rc with
      | .error rc => .ok ⟨w.expr.toList ++ children, w.pushdown, .error rc⟩
      | .ok () => (walkChildren w.pushdown children).map fun ws =>
          ⟨w.expr.toList ++ ws.children, ws.pushdown, ws.rc⟩

end

/-! ## Conjuncts -/

mutual

/-- The parts of nested ANDs. -/
def conjuncts : Expression ρ O Q A → List (Expression ρ O Q A)
  | .conjunction .and children => childrenConjuncts children
  | e => [e]

def childrenConjuncts : List (Expression ρ O Q A) → List (Expression ρ O Q A)
  | [] => []
  | c :: children => conjuncts c ++ childrenConjuncts children

end

/-- A comparison with a column. -/
def pushable : Expression ρ O Q A → Bool
  | .comparison _ left right => left.isField || right.isField
  | .inSet _ left _ => left.isField
  | _ => false

def isOr : Expression ρ O Q A → Bool
  | .conjunction .or _ => true
  | _ => false

def isExists : Expression ρ O Q A → Bool
  | .existsSet _ _ => true
  | _ => false

/-- The conjuncts that the walk comes to before an OR. -/
def visited (es : List (Expression ρ O Q A)) : List (Expression ρ O Q A) := es.takeWhile fun e => !isOr e

/-- The others. -/
def unvisited (es : List (Expression ρ O Q A)) : List (Expression ρ O Q A) := es.dropWhile fun e => !isOr e

/-- Those that are moved out. -/
def moved (es : List (Expression ρ O Q A)) : List (Expression ρ O Q A) := (visited es).filter pushable

/-- Those that stay. -/
def staying (es : List (Expression ρ O Q A)) : List (Expression ρ O Q A) :=
  (visited es).filter (fun e => !pushable e) ++ unvisited es

section

variable {es fs : List (Expression ρ O Q A)} {e : Expression ρ O Q A}

/-- An OR ends the walk. -/
theorem visited_append_of_or (h : es.any isOr = true) : visited (es ++ fs) = visited es := by
  induction es with
  | nil => cases h
  | cons e es ih =>
    unfold visited at ih ⊢
    rw [List.cons_append]
    cases he : isOr e with
    | true => rw [List.takeWhile_cons_of_neg (by simp [he]), List.takeWhile_cons_of_neg (by simp [he])]
    | false =>
      rw [List.any_cons, he, Bool.false_or] at h
      rw [List.takeWhile_cons_of_pos (by simp [he]), List.takeWhile_cons_of_pos (by simp [he]), ih h]

/-- Behind an OR nothing is visited. -/
theorem unvisited_append_of_or (h : es.any isOr = true) : unvisited (es ++ fs) = unvisited es ++ fs := by
  induction es with
  | nil => cases h
  | cons e es ih =>
    unfold unvisited at ih ⊢
    rw [List.cons_append]
    cases he : isOr e with
    | true =>
      rw [List.dropWhile_cons_of_neg (by simp [he]), List.dropWhile_cons_of_neg (by simp [he])]
      rfl
    | false =>
      rw [List.any_cons, he, Bool.false_or] at h
      rw [List.dropWhile_cons_of_pos (by simp [he]), List.dropWhile_cons_of_pos (by simp [he]), ih h]

theorem visited_append (h : es.any isOr = false) : visited (es ++ fs) = es ++ visited fs := by
  refine List.takeWhile_append_of_pos fun e he => ?_
  simpa using List.any_eq_false.mp h e he

theorem unvisited_append (h : es.any isOr = false) : unvisited (es ++ fs) = unvisited fs := by
  refine List.dropWhile_append_of_pos fun e he => ?_
  simpa using List.any_eq_false.mp h e he

theorem visited_eq_self (h : es.any isOr = false) : visited es = es := by
  have happend := @visited_append _ _ _ _ es [] h
  rw [List.append_nil] at happend
  rw [happend]
  exact List.append_nil es

theorem unvisited_eq_nil (h : es.any isOr = false) : unvisited es = [] := by
  have happend := @unvisited_append _ _ _ _ es [] h
  rw [List.append_nil] at happend
  exact happend

theorem moved_append_of_or (h : es.any isOr = true) : moved (es ++ fs) = moved es := by
  unfold moved
  rw [visited_append_of_or h]

theorem staying_append_of_or (h : es.any isOr = true) : staying (es ++ fs) = staying es ++ fs := by
  unfold staying
  rw [visited_append_of_or h, unvisited_append_of_or h, List.append_assoc]

theorem moved_append (h : es.any isOr = false) : moved (es ++ fs) = moved es ++ moved fs := by
  unfold moved
  rw [visited_append h, visited_eq_self h, List.filter_append]

theorem staying_append (h : es.any isOr = false) : staying (es ++ fs) = staying es ++ staying fs := by
  unfold staying
  rw [visited_append h, unvisited_append h, visited_eq_self h, unvisited_eq_nil h, List.filter_append,
    List.append_nil, List.append_assoc]

end

/-! ## What the walk does -/

section Walk

variable {es : List (Expression ρ O Q A)} {e : Expression ρ O Q A} {pushdown : List (Expression ρ O Q A)}

/-- The conjuncts that are left. -/
def leftConjuncts : Option (Expression ρ O Q A) → List (Expression ρ O Q A)
  | none => []
  | some e => conjuncts e

/-- The return code of a walk over the conjuncts. -/
def outcome (es : List (Expression ρ O Q A)) : Except RC Unit :=
  if es.any isOr then .error .unimplemented else .ok ()

/-- The walk over an expression with these conjuncts. -/
structure Walk.Spec (pushdown es : List (Expression ρ O Q A)) (r : Except Fault (Walk ρ O Q A)) : Prop where
  fault : (visited es).any isExists = true → r = .error .nullExpression
  done : (visited es).any isExists = false →
    ∃ w, r = .ok w ∧ leftConjuncts w.expr = staying es ∧ w.pushdown = pushdown ++ moved es ∧ w.rc = outcome es

/-- The walk over children with these conjuncts. -/
structure ChildrenWalk.Spec (pushdown es : List (Expression ρ O Q A)) (r : Except Fault (ChildrenWalk ρ O Q A)) :
    Prop where
  fault : (visited es).any isExists = true → r = .error .nullExpression
  done : (visited es).any isExists = false →
    ∃ w, r = .ok w ∧ childrenConjuncts w.children = staying es ∧ w.pushdown = pushdown ++ moved es ∧
      w.rc = outcome es

/-- The conjuncts of the children, those of the first one in front. -/
theorem childrenConjuncts_toList_append (o : Option (Expression ρ O Q A)) (cs : List (Expression ρ O Q A)) :
    childrenConjuncts (o.toList ++ cs) = leftConjuncts o ++ childrenConjuncts cs := by
  cases o with
  | none => rfl
  | some e =>
    show childrenConjuncts (e :: cs) = _
    rw [childrenConjuncts]
    rfl

theorem visited_singleton (h : isOr e = false) : visited [e] = [e] :=
  visited_eq_self (by rw [List.any_cons, h]; rfl)

/-- An expression that stays. -/
theorem spec_stays (hor : isOr e = false) (hexists : isExists e = false) (hpush : pushable e = false)
    (hconjuncts : conjuncts e = [e]) : Walk.Spec pushdown [e] (.ok ⟨some e, pushdown, .ok ()⟩) where
  fault h := by
    rw [visited_singleton hor, List.any_cons, hexists] at h
    cases h
  done _ := by
    have hany : [e].any isOr = false := by rw [List.any_cons, hor]; rfl
    refine ⟨_, rfl, ?_, ?_, ?_⟩
    · show conjuncts e = staying [e]
      unfold staying
      rw [hconjuncts, visited_singleton hor, unvisited_eq_nil hany, List.filter_cons_of_pos (by simp [hpush])]
      rfl
    · show pushdown = pushdown ++ moved [e]
      unfold moved
      rw [visited_singleton hor, List.filter_cons_of_neg (by simp [hpush])]
      exact (List.append_nil _).symm
    · unfold outcome
      rw [hany]
      rfl

/-- An expression that is moved out. -/
theorem spec_moved (hor : isOr e = false) (hexists : isExists e = false) (hpush : pushable e = true) :
    Walk.Spec pushdown [e] (.ok ⟨none, pushdown ++ [e], .ok ()⟩) where
  fault h := by
    rw [visited_singleton hor, List.any_cons, hexists] at h
    cases h
  done _ := by
    have hany : [e].any isOr = false := by rw [List.any_cons, hor]; rfl
    refine ⟨_, rfl, ?_, ?_, ?_⟩
    · show [] = staying [e]
      unfold staying
      rw [visited_singleton hor, unvisited_eq_nil hany, List.filter_cons_of_neg (by simp [hpush])]
      rfl
    · show pushdown ++ [e] = pushdown ++ moved [e]
      unfold moved
      rw [visited_singleton hor, List.filter_cons_of_pos hpush]
      rfl
    · unfold outcome
      rw [hany]
      rfl

/-- First the conjuncts of a child, then those of the others. -/
theorem childrenSpec_cons {c : Expression ρ O Q A} {children : List (Expression ρ O Q A)}
    (hc : Walk.Spec pushdown (conjuncts c) (getExprsCanPushdown pushdown c))
    (hrest : ∀ pushdown', ChildrenWalk.Spec pushdown' (childrenConjuncts children) (walkChildren pushdown' children)) :
    ChildrenWalk.Spec pushdown (conjuncts c ++ childrenConjuncts children) (walkChildren pushdown (c :: children)) := by
  cases hor : (conjuncts c).any isOr with
  | true =>
    -- the walk ends in this child
    constructor
    · intro h
      rw [visited_append_of_or hor] at h
      rw [walkChildren, hc.fault h]
      rfl
    · intro h
      rw [visited_append_of_or hor] at h
      obtain ⟨w, hok, hleft, hpushed, hrc⟩ := hc.done h
      have hrc : w.rc = .error .unimplemented := hrc.trans (by unfold outcome; rw [if_pos hor])
      refine ⟨⟨w.expr.toList ++ children, w.pushdown, .error .unimplemented⟩, ?_, ?_, ?_, ?_⟩
      · rw [walkChildren, hok]
        dsimp only [Except.bind]
        rw [hrc]
      · rw [childrenConjuncts_toList_append, hleft, staying_append_of_or hor]
      · rw [moved_append_of_or hor]
        exact hpushed
      · unfold outcome
        rw [List.any_append, hor]
        rfl
  | false =>
    have hvisited : (visited (conjuncts c ++ childrenConjuncts children)).any isExists =
        ((visited (conjuncts c)).any isExists || (visited (childrenConjuncts children)).any isExists) := by
      rw [visited_append hor, visited_eq_self hor, List.any_append]
    cases hexists : (visited (conjuncts c)).any isExists with
    | true =>
      constructor
      · intro _
        rw [walkChildren, hc.fault hexists]
        rfl
      · intro h
        rw [hvisited, hexists] at h
        cases h
    | false =>
      obtain ⟨w, hok, hleft, hpushed, hrc⟩ := hc.done hexists
      have hrc : w.rc = .ok () := hrc.trans (by unfold outcome; rw [if_neg (by rw [hor]; exact Bool.false_ne_true)])
      have hstep : walkChildren pushdown (c :: children) = (walkChildren w.pushdown children).map fun ws =>
          ⟨w.expr.toList ++ ws.children, ws.pushdown, ws.rc⟩ := by
        rw [walkChildren, hok]
        dsimp only [Except.bind]
        rw [hrc]
      rw [hexists, Bool.false_or] at hvisited
      rw [hstep]
      constructor
      · intro h
        rw [(hrest w.pushdown).fault (hvisited ▸ h)]
        rfl
      · intro h
        obtain ⟨ws, hok', hleft', hpushed', hrc'⟩ := (hrest w.pushdown).done (hvisited ▸ h)
        rw [hok']
        refine ⟨_, rfl, ?_, ?_, ?_⟩
        · rw [childrenConjuncts_toList_append, hleft, hleft', staying_append hor]
        · rw [hpushed', hpushed, moved_append hor, List.append_assoc]
        · rw [hrc']
          unfold outcome
          rw [List.any_append, hor, Bool.false_or]

mutual

/-- The walk takes the comparisons with a column in front of the first OR out, and nothing else. -/
theorem getExprsCanPushdown_spec (pushdown : List (Expression ρ O Q A)) (e : Expression ρ O Q A) :
    Walk.Spec pushdown (conjuncts e) (getExprsCanPushdown pushdown e) := by
  cases e with
  | conjunction type children =>
    cases type with
    | or =>
      rw [getExprsCanPushdown, conjuncts]
      · exact ⟨fun h => Bool.noConfusion h, fun _ => ⟨_, rfl, rfl, (List.append_nil pushdown).symm, rfl⟩⟩
      · rintro _ ⟨⟩
    | and =>
      have hchildren := walkChildren_spec pushdown children
      rw [getExprsCanPushdown, conjuncts]
      constructor
      · intro h
        rw [hchildren.fault h]
        rfl
      · intro h
        obtain ⟨w, hok, hleft, hpushed, hrc⟩ := hchildren.done h
        rw [hok]
        exact ⟨_, rfl, by rw [← hleft, leftConjuncts, conjuncts], hpushed, hrc⟩
  | comparison comp left right =>
    have hconjuncts : conjuncts (.comparison comp left right) = [.comparison comp left right] := rfl
    rw [hconjuncts, getExprsCanPushdown]
    cases hfield : left.isField || right.isField with
    | true =>
      -- so the second test fails as well
      rw [if_neg (by cases hl : left.isField <;> simp_all), if_neg (by cases hl : left.isField <;> simp_all)]
      exact spec_moved rfl rfl hfield
    | false =>
      rw [if_pos (by simp_all)]
      exact spec_stays rfl rfl hfield hconjuncts
  | inSet negated left right =>
    have hconjuncts : conjuncts (.inSet negated left right) = [.inSet negated left right] := rfl
    rw [hconjuncts, getExprsCanPushdown]
    cases hfield : left.isField with
    | true =>
      rw [if_pos rfl]
      exact spec_moved rfl rfl hfield
    | false =>
      rw [if_neg Bool.false_ne_true]
      exact spec_stays rfl rfl hfield hconjuncts
  | existsSet negated left => exact ⟨fun _ => rfl, fun h => Bool.noConfusion h⟩
  | value v => exact spec_stays rfl rfl rfl rfl
  | field read => exact spec_stays rfl rfl rfl rfl
  | cast child castType => exact spec_stays rfl rfl rfl rfl
  | subquery query => exact spec_stays rfl rfl rfl rfl
  | other read => exact spec_stays rfl rfl rfl rfl

/-- What is taken out of the children, and what stays. -/
theorem walkChildren_spec (pushdown : List (Expression ρ O Q A)) (children : List (Expression ρ O Q A)) :
    ChildrenWalk.Spec pushdown (childrenConjuncts children) (walkChildren pushdown children) := by
  cases children with
  | nil =>
    rw [childrenConjuncts, walkChildren]
    exact ⟨fun h => Bool.noConfusion h, fun _ => ⟨_, rfl, rfl, (List.append_nil pushdown).symm, rfl⟩⟩
  | cons c children =>
    rw [childrenConjuncts]
    exact childrenSpec_cons (getExprsCanPushdown_spec pushdown c) fun pushdown' => walkChildren_spec pushdown' children

end

end Walk

/-! ## The rewriter -/

/-- A plan. -/
inductive Operator (ρ O Q A : Type) where
  | predicate (expressions : List (Expression ρ O Q A)) (children : List (Operator ρ O Q A))
  | tableGet (predicates : List (Expression ρ O Q A))
  | other (children : List (Operator ρ O Q A))

/-- What a call leaves, and what it returns. -/
structure Rewritten (ρ O Q A : Type) where
  oper : Operator ρ O Q A
  rc : Except RC Unit
  changeMade : Bool

/-- What takes the place of the predicate: true, if all of it has been moved out. -/
def predicateLeft : Option (Expression ρ O Q A) → Expression ρ O Q A
  | none => .value (.boolean true)
  | some e => if e.isEmptyConjunction then .value (.boolean true) else e

/-- `PredicatePushdownRewriter::rewrite`. -/
def predicatePushdown : Operator ρ O Q A → Except Fault (Rewritten ρ O Q A)
  | .predicate [e] [.tableGet predicates] =>
    (getExprsCanPushdown [] e).map fun w =>
      match w.rc with
      | .error rc => ⟨.predicate w.expr.toList [.tableGet predicates], .error rc, false⟩
      | .ok () =>
        if w.pushdown.isEmpty then ⟨.predicate [predicateLeft w.expr] [.tableGet predicates], .ok (), false⟩
        else ⟨.predicate [predicateLeft w.expr] [.tableGet w.pushdown], .ok (), true⟩
  | oper => .ok ⟨oper, .ok (), false⟩

/-! ## What a plan lets through -/

section Rows

variable (ops : Operations ρ O Q A)

/-- The row passes the expression. -/
def Holds (row : ρ) (e : Expression ρ O Q A) : Prop := e.truthValue ops row = .ok true

mutual

/-- The row passes all predicates of the plan. -/
def Passes (row : ρ) : Operator ρ O Q A → Prop
  | .predicate expressions children => (∀ e ∈ expressions, Holds ops row e) ∧ AllPass row children
  | .tableGet predicates => ∀ e ∈ predicates, Holds ops row e
  | .other children => AllPass row children

def AllPass (row : ρ) : List (Operator ρ O Q A) → Prop
  | [] => True
  | oper :: children => Passes row oper ∧ AllPass row children

end

/-- The call leaves a plan that lets the same rows through, and so does a second call after a success. -/
def PushdownKeeps (oper : Operator ρ O Q A) : Prop :=
  ∃ r, predicatePushdown oper = .ok r ∧ (∀ row, Passes ops row r.oper ↔ Passes ops row oper) ∧
    (r.rc = .ok () →
      ∃ r', predicatePushdown r.oper = .ok r' ∧ ∀ row, Passes ops row r'.oper ↔ Passes ops row r.oper)

/-- No EXISTS stands in front of the first OR.  If there is an OR, then the comparisons with a column in front of it
    follow from the others and from the predicates that the scan has; if there is none, and there is a comparison
    with a column, then the predicates that the scan has follow from the predicate. -/
def LosesNothing : Operator ρ O Q A → Prop
  | .predicate [e] [.tableGet predicates] =>
    (visited (conjuncts e)).any isExists = false ∧
    if (conjuncts e).any isOr then
      ∀ row, (∀ p ∈ predicates, Holds ops row p) → (∀ c ∈ staying (conjuncts e), Holds ops row c) →
        ∀ c ∈ moved (conjuncts e), Holds ops row c
    else
      moved (conjuncts e) ≠ [] → ∀ row, (∀ c ∈ conjuncts e, Holds ops row c) → ∀ p ∈ predicates, Holds ops row p
  | _ => True

end Rows

section

variable {ops : Operations ρ O Q A} {row : ρ} {e : Expression ρ O Q A} {es : List (Expression ρ O Q A)}

mutual

/-- An expression holds exactly if its conjuncts do. -/
theorem holds_iff_conjuncts (e : Expression ρ O Q A) : Holds ops row e ↔ ∀ c ∈ conjuncts e, Holds ops row c := by
  cases e with
  | conjunction type children =>
    cases type with
    | or => exact List.forall_mem_singleton.symm
    | and =>
      rw [conjuncts, ← childrenHold_iff_conjuncts children]
      unfold Holds
      rw [truthValue_conjunction ConjunctionType.noConfusion]
      show shortCircuit false _ = _ ↔ _
      rw [shortCircuit_and_true, List.forall_mem_map]
  | _ => exact List.forall_mem_singleton.symm

theorem childrenHold_iff_conjuncts (children : List (Expression ρ O Q A)) :
    (∀ c ∈ children, Holds ops row c) ↔ ∀ c ∈ childrenConjuncts children, Holds ops row c := by
  cases children with
  | nil => rfl
  | cons c children =>
    rw [List.forall_mem_cons, childrenConjuncts, List.forall_mem_append, ← holds_iff_conjuncts c,
      ← childrenHold_iff_conjuncts children]

end

/-- Those that are moved out and those that stay are all. -/
theorem hold_iff_moved_staying :
    (∀ c ∈ es, Holds ops row c) ↔ (∀ c ∈ moved es, Holds ops row c) ∧ ∀ c ∈ staying es, Holds ops row c := by
  have hparts : es = visited es ++ unvisited es := List.takeWhile_append_dropWhile.symm
  constructor
  · intro h
    rw [hparts, List.forall_mem_append] at h
    refine ⟨fun c hc => h.1 c (List.mem_of_mem_filter hc), List.forall_mem_append.mpr ⟨fun c hc => ?_, h.2⟩⟩
    exact h.1 c (List.mem_of_mem_filter hc)
  · rintro ⟨hmoved, hstaying⟩
    unfold staying at hstaying
    rw [List.forall_mem_append] at hstaying
    rw [hparts, List.forall_mem_append]
    refine ⟨fun c hc => ?_, hstaying.2⟩
    cases hpush : pushable c with
    | true => exact hmoved c (List.mem_filter.mpr ⟨hc, hpush⟩)
    | false => exact hstaying.1 c (List.mem_filter.mpr ⟨hc, by rw [hpush]; rfl⟩)

/-- What stays is what its conjuncts say. -/
theorem holds_predicateLeft (o : Option (Expression ρ O Q A)) :
    Holds ops row (predicateLeft o) ↔ ∀ c ∈ leftConjuncts o, Holds ops row c := by
  cases o with
  | none => exact iff_of_true rfl (List.forall_mem_nil _)
  | some e =>
    show Holds ops row (predicateLeft (some e)) ↔ ∀ c ∈ conjuncts e, Holds ops row c
    rw [← holds_iff_conjuncts e]
    cases e with
    | conjunction type children =>
      cases children with
      | nil => exact iff_of_true rfl rfl
      | cons c children => rfl
    | _ => rfl

end

section Main

variable {ops : Operations ρ O Q A} {e : Expression ρ O Q A} {predicates es : List (Expression ρ O Q A)}

theorem passes_predicate (row : ρ) (es : List (Expression ρ O Q A)) :
    Passes ops row (.predicate es [.tableGet predicates]) ↔
      (∀ e ∈ es, Holds ops row e) ∧ ∀ p ∈ predicates, Holds ops row p := by
  rw [Passes, AllPass, Passes, AllPass, and_true]

/-- Nothing comes in but the constant true. -/
theorem conjuncts_predicateLeft (o : Option (Expression ρ O Q A)) :
    ∀ c ∈ conjuncts (predicateLeft o), c ∈ leftConjuncts o ∨ c = .value (.boolean true) := by
  cases o with
  | none => exact fun c hc => Or.inr (List.mem_singleton.mp hc)
  | some e =>
    intro c hc
    rw [predicateLeft] at hc
    by_cases hempty : e.isEmptyConjunction = true
    · rw [if_pos hempty] at hc
      exact Or.inr (List.mem_singleton.mp hc)
    · rw [if_neg hempty] at hc
      exact Or.inl hc

/-- A call without an EXISTS and an OR. -/
theorem predicatePushdown_ok (hexists : (visited (conjuncts e)).any isExists = false)
    (hor : (conjuncts e).any isOr = false) : ∃ e' changed,
      predicatePushdown (.predicate [e] [.tableGet predicates]) = .ok ⟨.predicate [e'] [.tableGet
        (if moved (conjuncts e) = [] then predicates else moved (conjuncts e))], .ok (), changed⟩ ∧
      (∀ row, Holds ops row e' ↔ ∀ c ∈ staying (conjuncts e), Holds ops row c) ∧
      ∀ c ∈ conjuncts e', c ∈ staying (conjuncts e) ∨ c = .value (.boolean true) := by
  obtain ⟨w, hok, hleft, hpushed, hrc⟩ := (getExprsCanPushdown_spec [] e).done hexists
  have hrc : w.rc = .ok () := hrc.trans (by unfold outcome; rw [if_neg (by rw [hor]; exact Bool.false_ne_true)])
  rw [List.nil_append] at hpushed
  refine ⟨predicateLeft w.expr, !(moved (conjuncts e)).isEmpty, ?_, fun row => ?_, ?_⟩
  · rw [predicatePushdown, hok]
    dsimp only [Except.map]
    rw [hrc, hpushed]
    dsimp only
    cases moved (conjuncts e) <;> rfl
  · rw [← hleft]
    exact holds_predicateLeft w.expr
  · rw [← hleft]
    exact conjuncts_predicateLeft w.expr

/-- A call that comes to an OR. -/
theorem predicatePushdown_or (hexists : (visited (conjuncts e)).any isExists = false)
    (hor : (conjuncts e).any isOr = true) : ∃ es,
      predicatePushdown (.predicate [e] [.tableGet predicates]) =
        .ok ⟨.predicate es [.tableGet predicates], .error .unimplemented, false⟩ ∧
      ∀ row, (∀ e ∈ es, Holds ops row e) ↔ ∀ c ∈ staying (conjuncts e), Holds ops row c := by
  obtain ⟨w, hok, hleft, -, hrc⟩ := (getExprsCanPushdown_spec [] e).done hexists
  have hrc : w.rc = .error .unimplemented := hrc.trans (by unfold outcome; rw [if_pos hor])
  refine ⟨w.expr.toList, ?_, fun row => ?_⟩
  · rw [predicatePushdown, hok]
    dsimp only [Except.map]
    rw [hrc]
  · rw [← hleft]
    cases w.expr with
    | none => rfl
    | some e' => exact List.forall_mem_singleton.trans (holds_iff_conjuncts e')

/-- What is left after a success is not touched by another call. -/
theorem settled {c : Expression ρ O Q A} (hexists : (visited es).any isExists = false) (hor : es.any isOr = false)
    (hc : c ∈ staying es ∨ c = .value (.boolean true)) :
    isOr c = false ∧ isExists c = false ∧ pushable c = false := by
  rcases hc with hc | rfl
  · unfold staying at hc
    rw [unvisited_eq_nil hor, List.append_nil] at hc
    obtain ⟨hvisited, hpush⟩ := List.mem_filter.mp hc
    refine ⟨?_, ?_, by simpa using hpush⟩
    · rw [visited_eq_self hor] at hvisited
      simpa using List.any_eq_false.mp hor c hvisited
    · simpa using List.any_eq_false.mp hexists c hvisited
  · exact ⟨rfl, rfl, rfl⟩

/-- A second call. -/
theorem predicatePushdown_settled
    (h : ∀ c ∈ conjuncts e, isOr c = false ∧ isExists c = false ∧ pushable c = false) :
    ∃ r, predicatePushdown (.predicate [e] [.tableGet predicates]) = .ok r ∧
      ∀ row, Passes ops row r.oper ↔ Passes ops row (.predicate [e] [.tableGet predicates]) := by
  have hor : (conjuncts e).any isOr = false := by
    rw [List.any_eq_false]
    exact fun c hc => by simp [(h c hc).1]
  have hvisited := visited_eq_self hor
  have hexists : (visited (conjuncts e)).any isExists = false := by
    rw [hvisited, List.any_eq_false]
    exact fun c hc => by simp [(h c hc).2.1]
  have hmoved : moved (conjuncts e) = [] := by
    unfold moved
    rw [hvisited, List.filter_eq_nil_iff]
    exact fun c hc => by simp [(h c hc).2.2]
  obtain ⟨e', changed, hok, hholds, -⟩ := @predicatePushdown_ok _ _ _ _ ops e predicates hexists hor
  refine ⟨_, hok, fun row => ?_⟩
  have hnone : ∀ c ∈ moved (conjuncts e), Holds ops row c := by
    rw [hmoved]
    exact List.forall_mem_nil _
  have hall := @hold_iff_moved_staying _ _ _ _ ops row (conjuncts e)
  rw [if_pos hmoved, passes_predicate, passes_predicate, List.forall_mem_singleton, List.forall_mem_singleton,
    hholds row, holds_iff_conjuncts e]
  tauto

/-- A predicate over a table scan: the rows stay the same exactly if no conjunct is lost. -/
theorem pushdownKeeps_predicate : PushdownKeeps ops (.predicate [e] [.tableGet predicates]) ↔
    LosesNothing ops (.predicate [e] [.tableGet predicates]) := by
  show _ ↔ _ ∧ _
  cases hexists : (visited (conjuncts e)).any isExists with
  | true =>
    refine iff_of_false ?_ fun h => Bool.noConfusion h.1
    rintro ⟨r, hok, -⟩
    rw [predicatePushdown, (getExprsCanPushdown_spec [] e).fault hexists] at hok
    cases hok
  | false =>
    rw [eq_self, true_and]
    cases hor : (conjuncts e).any isOr with
    | true =>
      rw [if_pos rfl]
      obtain ⟨es, hok, hholds⟩ := @predicatePushdown_or _ _ _ _ ops e predicates hexists hor
      have hrow : ∀ row, (Passes ops row (.predicate es [.tableGet predicates]) ↔
          Passes ops row (.predicate [e] [.tableGet predicates])) ↔
          ((∀ p ∈ predicates, Holds ops row p) → (∀ c ∈ staying (conjuncts e), Holds ops row c) →
            ∀ c ∈ moved (conjuncts e), Holds ops row c) := by
        intro row
        have hall := @hold_iff_moved_staying _ _ _ _ ops row (conjuncts e)
        rw [passes_predicate, passes_predicate, List.forall_mem_singleton, holds_iff_conjuncts e, hholds row]
        tauto
      constructor
      · rintro ⟨r, hok', hkeeps, -⟩ row
        cases hok.symm.trans hok'
        exact (hrow row).mp (hkeeps row)
      · intro h
        exact ⟨_, hok, fun row => (hrow row).mpr (h row), fun hrc => by cases hrc⟩
    | false =>
      rw [if_neg Bool.false_ne_true]
      obtain ⟨e', changed, hok, hholds, hleft⟩ := @predicatePushdown_ok _ _ _ _ ops e predicates hexists hor
      have hrow : ∀ row, (Passes ops row (.predicate [e'] [.tableGet
            (if moved (conjuncts e) = [] then predicates else moved (conjuncts e))]) ↔
          Passes ops row (.predicate [e] [.tableGet predicates])) ↔
          (moved (conjuncts e) ≠ [] → (∀ c ∈ conjuncts e, Holds ops row c) →
            ∀ p ∈ predicates, Holds ops row p) := by
        intro row
        rw [passes_predicate, passes_predicate, List.forall_mem_singleton, List.forall_mem_singleton,
          holds_iff_conjuncts e, hholds row]
        have hall := @hold_iff_moved_staying _ _ _ _ ops row (conjuncts e)
        by_cases hmoved : moved (conjuncts e) = []
        · have hnone : ∀ c ∈ moved (conjuncts e), Holds ops row c := by
            rw [hmoved]
            exact List.forall_mem_nil _
          rw [if_pos hmoved]
          tauto
        · rw [if_neg hmoved]
          tauto
      constructor
      · rintro ⟨r, hok', hkeeps, -⟩ hmoved row
        cases hok.symm.trans hok'
        exact (hrow row).mp (hkeeps row) hmoved
      · intro h
        refine ⟨_, hok, fun row => (hrow row).mpr fun hmoved => h hmoved row, fun _ => ?_⟩
        exact predicatePushdown_settled fun c hc => settled hexists hor (hleft c hc)

/-- A plan of another shape is left alone. -/
theorem shape_cases (oper : Operator ρ O Q A) : (∃ e predicates, oper = .predicate [e] [.tableGet predicates]) ∨
    (predicatePushdown oper = .ok ⟨oper, .ok (), false⟩ ∧ LosesNothing ops oper) := by
  unfold predicatePushdown LosesNothing
  split
  · exact Or.inl ⟨_, _, rfl⟩
  · exact Or.inr ⟨rfl, trivial⟩

/-- The rewriter loses no predicate exactly if none is dropped at an OR and none of the scan is replaced that does
    not follow from the others. -/
theorem predicate_pushdown_iff (oper : Operator ρ O Q A) : PushdownKeeps ops oper ↔ LosesNothing ops oper := by
  rcases @shape_cases _ _ _ _ ops oper with ⟨e, predicates, rfl⟩ | ⟨hok, hnothing⟩
  · exact pushdownKeeps_predicate
  · exact iff_of_true ⟨_, hok, fun _ => Iff.rfl, fun _ => ⟨_, hok, fun _ => Iff.rfl⟩⟩ hnothing

end Main

/-! ## A comparison that is lost -/

/-- Rows of numbers, which are only compared for equality. -/
def numbers : Operations (Nat → Nat) Nat Empty Unit where
  getBoolean v := v != 0
  compareValue
    | .equalTo, .other l, .other r => .ok (l == r)
    | _, _, _ => .error .internal
  castTo _ v := .ok v
  scalarQuery q _ := q.elim
  inQuery _ q _ := q.elim
  existsQuery q _ := q.elim
  queryValue q _ := q.elim

/-- Column `i` is `v`. -/
def columnEquals (i v : Nat) : Expression (Nat → Nat) Nat Empty Unit :=
  .comparison .equalTo (.field fun row => .ok (.other (row i))) (.value (.other v))

/-- `a = 1 AND (b = 2 OR c = 3)`: the row with another `a` passes as well. -/
theorem pushdown_loses : ¬ PushdownKeeps numbers (.predicate [.conjunction .and [columnEquals 0 1,
    .conjunction .or [columnEquals 1 2, columnEquals 2 3]]] [.tableGet []]) := by
  rintro ⟨r, hok, hkeeps, -⟩
  have hr : predicatePushdown (.predicate [.conjunction .and [columnEquals 0 1,
      .conjunction .or [columnEquals 1 2, columnEquals 2 3]]] [.tableGet []]) =
      .ok ⟨.predicate [.conjunction .and [.conjunction .or [columnEquals 1 2, columnEquals 2 3]]] [.tableGet []],
        .error .unimplemented, false⟩ := rfl
  cases hr.symm.trans hok
  have hrow := hkeeps fun i => if i = 1 then 2 else 0
  rw [passes_predicate, passes_predicate, List.forall_mem_singleton, List.forall_mem_singleton] at hrow
  have hnow := hrow.mp ⟨rfl, List.forall_mem_nil _⟩
  cases hnow.1

end Miniob.Optimizer
