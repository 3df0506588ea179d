/-
  The aggregate functions (`Aggregator` and its subclasses in src/observer/sql/expr/aggregator.cpp).

  * An aggregator holds a `Value`, which is UNDEFINED (`none`) until the first call of `accumulate`.
    Floats are exact rationals; NULL is in band (`Value.isNull`).
  * `sql` is what SQL makes of the values: there is no result if the number does not fit the type, or is
    the one that stands for NULL.
  * `Follows`: after each value the aggregator has what SQL makes of the values so far.  `Fits` is the
    condition for this: running sums stay in range and do not hit NULL, and `EPSILON` does not hide a
    smaller or a larger number.

  `evaluate` also stores the initial value; `accumulate` starts from the same either way, so this is
  left out.  So are VECTORS, and sums of other types than INT and FLOAT.
-/
import Miniob.Expr.Arithmetic
import Mathlib.Data.List.Induction

namespace Miniob.Expr

open Miniob.Common Miniob.Index

/-! ## Values -/

/-- The types of columns, less VECTORS. -/
inductive ColumnType where
  | number (t : NumberType)
  | dates
  | chars
  deriving DecidableEq

inductive Value where
  | number (n : Number)
  | dates (v : Int32)
  | chars (s : List UInt8)
  deriving DecidableEq

namespace Value

def type : Value → ColumnType
  | number n => .number n.type
  | dates _ => .dates
  | chars _ => .chars

/-- `NULL_VALUE`. -/
def nullValue : Value := number (.ints intNull)

def isNull : Value → Bool
  | number n => n.isNull
  | dates v => decide (v = dateNull)
  | chars s => s.isEmpty

/-- `compare` of values of one type.  Values of two types are converted, which is left out. -/
def compare : Value → Value → Int
  | number (.ints a), number (.ints b) => IntegerType.compare a b
  | number (.floats a), number (.floats b) => FloatType.compare a b
  | dates a, dates b => DateType.compare a b
  | chars a, chars b => CharType.compare a b
  | _, _ => 2 ^ 31 - 1

/-- `Value::add`, with a result of the type of the right value.  The types that are not numbers have no
    `add`: the result stays what it was. -/
def add : Value → Value → Value
  | number a, number (.ints b) => number (IntegerType.add a (.ints b))
  | number a, number (.floats b) => number (FloatType.add a (.floats b))
  | _, result => result

/-- `Value::divide` with a FLOAT as the result. -/
def divide : Value → Int32 → Value
  | number a, b => number (FloatType.divide a (.ints b))
  | v, _ => v

end Value

/-! ## The aggregators -/

/-- `AggregateExpr::Type`. -/
inductive AggregateType where
  | count
  | countStar
  | sum
  | avg
  | max
  | min
  deriving DecidableEq

/-- The fields of an `Aggregator`; only `AvgAggregator` has `count_`. -/
structure Aggregator where
  value : Option Value
  count : Int32

namespace Aggregator

/-- `reset`. -/
def reset (a : Aggregator) : Aggregator := { a with value := none }

/-- `accumulate` of SUM, MIN, MAX, and of AVG less its counter: NULL is skipped, the first value is
    taken, and `combine` puts in each further one. -/
def step (combine : Value → Value → Value) (state : Option Value) (value : Value) : Value :=
  let state := state.getD Value.nullValue
  if value.isNull then state
  else if state.isNull then value
  else combine value state

/-- A counter that is NULL starts again at 0. -/
def increment (state : Value) : Value :=
  let state := if state.isNull then Value.number (.ints 0) else state
  state.add (Value.number (.ints 1))

/-- `accumulate` of the aggregators; a NULL is passed over, but for COUNT(*). -/
def accumulate (type : AggregateType) (a : Aggregator) (value : Value) : Aggregator :=
  match type with
  | .sum => { a with value := step Value.add a.value value }
  | .min => { a with value := step (fun v m => if v.compare m < 0 then v else m) a.value value }
  | .max => { a with value := step (fun v m => if v.compare m > 0 then v else m) a.value value }
  | .count =>
    let state := a.value.getD (.number (.ints 0))
    { a with value := if value.isNull then state else increment state }
  | .countStar =>
    match a.value with
    | none => { a with value := some (.number (.ints 1)) }
    | some state => { a with value := some (increment state) }
  | .avg =>
    let count := if a.value.isNone then 0 else a.count
    { value := step Value.add a.value value, count := if value.isNull then count else count + 1 }

def evaluate (type : AggregateType) (a : Aggregator) : Value :=
  match type with
  | .sum | .min | .max => a.value.getD Value.nullValue
  | .count | .countStar => a.value.getD (.number (.ints 0))
  -- the value is UNDEFINED until the first `accumulate`, and is read as the number 0 then
  | .avg => (a.value.getD (.number (.ints 0))).divide a.count

/-- A new aggregator. -/
def fresh : Aggregator := ⟨none, 0⟩

/-- The aggregator after the values. -/
def run (type : AggregateType) (vs : List Value) : Aggregator := vs.foldl (accumulate type) fresh

end Aggregator

/-! ## What an aggregate should be -/

/-- The value without a tolerance: below, equal or above. -/
def Value.order : Value → Value → Int
  | number (.ints a), number (.ints b) => linearCmp a.toInt b.toInt
  | number (.floats a), number (.floats b) => linearCmp a b
  | dates a, dates b => linearCmp a.toInt b.toInt
  | chars a, chars b => listCmp (fun a b => linearCmp a.toNat b.toNat) a b
  | _, _ => 0

/-- The values that are not NULL. -/
def nonNull (vs : List Value) : List Value := vs.filter fun v => !v.isNull

/-- The number that a value is. -/
def Value.toRat : Value → ℚ
  | number n => n.getFloat
  | _ => 0

/-- The value of the type that is the number, if there is one that is not NULL. -/
def NumberType.represent (t : NumberType) (q : ℚ) : Option Value :=
  match t with
  | .ints => if -2 ^ 31 < q ∧ q < 2 ^ 31 then some (.number (.ints (Int32.ofInt q.num))) else none
  | .floats => if q = floatNull then none else some (.number (.floats q))

/-- The first of the values that no other is below, or above. -/
def best (better : Int → Bool) : List Value → Option Value
  | [] => none
  | v :: vs => some (vs.foldl (fun m v => if better (v.order m) then v else m) v)

/-- The aggregate in SQL, of values that are numbers of the type `t` if they are added up. -/
def AggregateType.sql (type : AggregateType) (t : NumberType) (vs : List Value) : Option Value :=
  match type with
  | count => if (nonNull vs).length < 2 ^ 31 then
      some (.number (.ints (Int32.ofNat (nonNull vs).length))) else none
  | countStar => if vs.length < 2 ^ 31 then some (.number (.ints (Int32.ofNat vs.length))) else none
  | sum => if nonNull vs = [] then some Value.nullValue
      else t.represent ((nonNull vs).map Value.toRat).sum
  | avg => if nonNull vs = [] then some (.number NumberType.floats.null)
      else NumberType.floats.represent (((nonNull vs).map Value.toRat).sum / (nonNull vs).length)
  | min => some ((best (fun o => decide (o < 0)) (nonNull vs)).getD Value.nullValue)
  | max => some ((best (fun o => decide (o > 0)) (nonNull vs)).getD Value.nullValue)

/-- The sum of the values that are not NULL. -/
def total (vs : List Value) : ℚ := ((nonNull vs).map Value.toRat).sum

namespace AggregateType

/-- After each of the values the aggregator has the result for the values so far; AVG has their sum and
    their number. -/
def Follows (type : AggregateType) (t : NumberType) (vs : List Value) : Prop :=
  ∀ p, p <+: vs → type.sql t p = some (Aggregator.evaluate type (Aggregator.run type p)) ∧
    (type = .avg → (Aggregator.run type p).count.toInt = (nonNull p).length ∧
      (nonNull p ≠ [] → ((Aggregator.run type p).value.getD Value.nullValue).toRat = total p))

/-- The number is one of the type. -/
def InRange (t : NumberType) (q : ℚ) : Prop := t = .ints → -2 ^ 31 ≤ q ∧ q < 2 ^ 31

/-- The condition for the last of the values.

    * COUNT and SUM: the result fits the type and is not the number that stands for NULL.
    * AVG: so does its result, and the running sum is in range; it is not NULL before the last value.
    * MIN and MAX: `EPSILON` does not hide that the last value is below, or above, those before it. -/
def FitsAt (type : AggregateType) (t : NumberType) (p : List Value) : Prop :=
  match type with
  | count | countStar | sum => type.sql t p ≠ none
  | avg => type.sql t p ≠ none ∧ (nonNull p).length < 2 ^ 31 ∧ InRange t (total p) ∧
      ∀ q x, p = q ++ [x] → x.isNull = false → nonNull q ≠ [] → total q ≠ t.null.getFloat
  | min => ∀ q x m, p = q ++ [x] → x.isNull = false →
      best (fun o => decide (o < 0)) (nonNull q) = some m → (x.compare m < 0 ↔ x.order m < 0)
  | max => ∀ q x m, p = q ++ [x] → x.isNull = false →
      best (fun o => decide (o > 0)) (nonNull q) = some m → (x.compare m > 0 ↔ x.order m > 0)

def Fits (type : AggregateType) (t : NumberType) (vs : List Value) : Prop :=
  ∀ p, p <+: vs → type.FitsAt t p

end AggregateType

/-! ## One value more -/

section Snoc

variable {vs : List Value} {x m : Value} {t : NumberType}

theorem nonNull_snoc (vs : List Value) (x : Value) :
    nonNull (vs ++ [x]) = nonNull vs ++ if x.isNull then [] else [x] := by
  unfold nonNull
  rw [List.filter_append]
  cases h : x.isNull <;> simp [h]

theorem nonNull_snoc_of_null (h : x.isNull = true) : nonNull (vs ++ [x]) = nonNull vs := by
  rw [nonNull_snoc, if_pos h, List.append_nil]

theorem nonNull_snoc_of_not_null (h : x.isNull = false) : nonNull (vs ++ [x]) = nonNull vs ++ [x] := by
  rw [nonNull_snoc, h]
  rfl

theorem isNull_of_mem_nonNull (h : x ∈ nonNull vs) : x.isNull = false := by
  have := (List.mem_filter.mp h).2
  simpa using this

theorem total_snoc_of_not_null (h : x.isNull = false) : total (vs ++ [x]) = total vs + x.toRat := by
  unfold total
  rw [nonNull_snoc_of_not_null h]
  simp

/-- A new value is taken if it is better than the best so far. -/
theorem best_snoc (better : Int → Bool) (l : List Value) (x : Value) : best better (l ++ [x]) =
    some (match best better l with
      | none => x
      | some m => if better (x.order m) then x else m) := by
  cases l with
  | nil => rfl
  | cons v l =>
    show some ((l ++ [x]).foldl _ v) = _
    rw [List.foldl_append]
    rfl

/-- The best value is one of them. -/
theorem best_mem {better : Int → Bool} {l : List Value} (h : best better l = some m) : m ∈ l := by
  induction l using List.reverseRecOn generalizing m with
  | nil => cases h
  | append_singleton l x ih =>
    rw [best_snoc, Option.some.injEq] at h
    rw [List.mem_append, List.mem_singleton]
    cases hl : best better l with
    | none =>
      rw [hl] at h
      exact Or.inr h.symm
    | some m' =>
      rw [hl] at h
      dsimp only at h
      split at h
      · exact Or.inr h.symm
      · rw [← h]
        exact Or.inl (ih hl)

theorem Aggregator.run_snoc (type : AggregateType) (vs : List Value) (x : Value) :
    run type (vs ++ [x]) = accumulate type (run type vs) x := by
  unfold run
  rw [List.foldl_append]
  rfl

/-- Two statements about all prefixes of a list agree if they do for one more value. -/
theorem forall_prefix_iff {α : Type} {T : α → Prop} {P Q : List α → Prop} (hnil : P [] ↔ Q [])
    (hsnoc : ∀ vs x, (∀ v ∈ vs, T v) → T x → (∀ p, p <+: vs → P p) → (∀ p, p <+: vs → Q p) →
      (P (vs ++ [x]) ↔ Q (vs ++ [x]))) (l : List α) (hl : ∀ x ∈ l, T x) :
    (∀ p, p <+: l → P p) ↔ ∀ p, p <+: l → Q p := by
  have hconcat : ∀ (R : List α → Prop) l x,
      (∀ p, p <+: l ++ [x] → R p) ↔ R (l ++ [x]) ∧ ∀ p, p <+: l → R p := by
    intro R l x
    simp only [List.prefix_concat_iff, forall_eq_or_imp]
  induction l using List.reverseRecOn with
  | nil => simp only [List.prefix_nil, forall_eq, hnil]
  | append_singleton l x ih =>
    rw [hconcat, hconcat]
    rw [List.forall_mem_append] at hl
    have ih := ih hl.1
    constructor
    · rintro ⟨hx, hp⟩
      exact ⟨(hsnoc l x hl.1 (hl.2 x (by simp)) hp (ih.mp hp)).mp hx, ih.mp hp⟩
    · rintro ⟨hx, hp⟩
      exact ⟨(hsnoc l x hl.1 (hl.2 x (by simp)) (ih.mpr hp) hp).mpr hx, ih.mpr hp⟩

end Snoc

/-! ## COUNT -/

section Count

variable {vs : List Value} {x : Value} {t : NumberType}

/-- The counter. -/
def counted (type : AggregateType) (vs : List Value) : Value :=
  (Aggregator.run type vs).value.getD (.number (.ints 0))

theorem counted_count_snoc : counted .count (vs ++ [x]) =
    if x.isNull then counted .count vs else Aggregator.increment (counted .count vs) := by
  unfold counted
  rw [Aggregator.run_snoc]
  unfold Aggregator.accumulate
  cases x.isNull <;> rfl

theorem counted_countStar_snoc :
    counted .countStar (vs ++ [x]) = Aggregator.increment (counted .countStar vs) := by
  unfold counted
  rw [Aggregator.run_snoc]
  unfold Aggregator.accumulate
  cases (Aggregator.run .countStar vs).value <;> rfl

/-- The counter goes up by one while it fits. -/
theorem increment_ofNat {n : Nat} (hn : n + 1 < 2 ^ 31) :
    Aggregator.increment (.number (.ints (Int32.ofNat n))) = .number (.ints (Int32.ofNat (n + 1))) := by
  have hnull : Int32.ofNat n ≠ intNull := by
    intro h
    have := congrArg Int32.toInt h
    rw [Int32.toInt_ofNat_of_lt (by omega)] at this
    simp [intNull] at this
  unfold Aggregator.increment
  simp [Value.isNull, Number.isNull, hnull, Value.add, IntegerType.add, Number.getInt]

/-- COUNT counts what is not NULL. -/
theorem counted_count (h : (nonNull vs).length < 2 ^ 31) :
    counted .count vs = .number (.ints (Int32.ofNat (nonNull vs).length)) := by
  induction vs using List.reverseRecOn with
  | nil => rfl
  | append_singleton vs x ih =>
    rw [counted_count_snoc]
    cases hx : x.isNull with
    | true =>
      rw [nonNull_snoc_of_null hx] at h ⊢
      rw [if_pos rfl]
      exact ih h
    | false =>
      rw [nonNull_snoc_of_not_null hx, List.length_append, List.length_singleton] at h ⊢
      rw [if_neg Bool.false_ne_true, ih (by omega), increment_ofNat h]

theorem counted_countStar (h : vs.length < 2 ^ 31) :
    counted .countStar vs = .number (.ints (Int32.ofNat vs.length)) := by
  induction vs using List.reverseRecOn with
  | nil => rfl
  | append_singleton vs x ih =>
    rw [List.length_append, List.length_singleton] at h ⊢
    rw [counted_countStar_snoc, ih (by omega), increment_ofNat h]

/-- COUNT is right as long as the counter fits. -/
theorem count_follows_iff (vs : List Value) :
    AggregateType.count.Follows t vs ↔ AggregateType.count.Fits t vs := by
  refine forall₂_congr fun p _ => ?_
  have hval : Aggregator.evaluate .count (Aggregator.run .count p) = counted .count p := rfl
  have hsql : AggregateType.count.sql t p = if (nonNull p).length < 2 ^ 31 then
      some (.number (.ints (Int32.ofNat (nonNull p).length))) else none := rfl
  show _ ↔ AggregateType.count.sql t p ≠ none
  rw [hval, hsql]
  by_cases h : (nonNull p).length < 2 ^ 31
  · rw [if_pos h, counted_count h]
    simp
  · rw [if_neg h]
    simp

/-- So is COUNT(*). -/
theorem countStar_follows_iff (vs : List Value) :
    AggregateType.countStar.Follows t vs ↔ AggregateType.countStar.Fits t vs := by
  refine forall₂_congr fun p _ => ?_
  have hval : Aggregator.evaluate .countStar (Aggregator.run .countStar p) = counted .countStar p := rfl
  have hsql : AggregateType.countStar.sql t p = if p.length < 2 ^ 31 then
      some (.number (.ints (Int32.ofNat p.length))) else none := rfl
  show _ ↔ AggregateType.countStar.sql t p ≠ none
  rw [hval, hsql]
  by_cases h : p.length < 2 ^ 31
  · rw [if_pos h, counted_countStar h]
    simp
  · rw [if_neg h]
    simp

end Count

/-! ## MIN and MAX -/

section Held

variable {vs : List Value} {x m : Value} {t : NumberType}

/-- What an aggregator that is not a counter has in its value. -/
def held (type : AggregateType) (vs : List Value) : Value :=
  (Aggregator.run type vs).value.getD Value.nullValue

theorem isNull_nullValue : Value.nullValue.isNull = true := by
  simp [Value.nullValue, Value.isNull, Number.isNull]

/-- A value is not better than itself. -/
theorem order_self (x : Value) : x.order x = 0 := by
  have hlinear : ∀ a : Int, linearCmp a a = 0 := fun a => (lawful_linearCmp Set.univ).refl a trivial
  match x with
  | .number (.ints a) => exact hlinear _
  | .number (.floats a) => exact (lawful_linearCmp Set.univ).refl a trivial
  | .dates a => exact hlinear _
  | .chars a => exact listCmp_self lawful_compareByte a

theorem absentFirst_self {α : Type} {absent : α → Bool} {cmp : α → α → Int} {a : α}
    (hcmp : cmp a a = 0) (ha : absent a = false) : absentFirst absent cmp a a = 0 := by
  unfold absentFirst
  simp [ha, hcmp]

/-- A text is equal to itself. -/
theorem strncmp_self (n : Nat) (s : List UInt8) : strncmp n s s = 0 := by
  induction n generalizing s with
  | zero => rfl
  | succ n ih =>
    unfold strncmp
    rw [if_neg (by simp), ih]
    split <;> rfl

theorem compareString_self (s : List UInt8) : compareString s s = 0 := by
  unfold compareString
  simp [strncmp_self]

/-- A value that is not NULL is equal to itself. -/
theorem compare_self (h : x.isNull = false) : x.compare x = 0 := by
  have hint : ∀ a : Int32, compareInt a a = 0 := fun a => (lawful_compareInt Set.univ).refl a trivial
  have hfloat : ∀ a : ℚ, compareFloat a a = 0 := by
    intro a
    refine (toleranceCmp_eq_zero epsilon_nonneg).mpr ?_
    unfold Close
    rw [sub_self]
    exact ⟨epsilon_nonneg, epsilon_nonneg⟩
  match x, h with
  | .number (.ints a), h =>
    show absentFirst (fun v => decide (v = intNull)) compareInt a a = 0
    exact absentFirst_self (hint a) h
  | .number (.floats a), h =>
    show absentFirst (fun v => decide (v = floatNull)) compareFloat a a = 0
    exact absentFirst_self (hfloat a) h
  | .dates a, h =>
    show absentFirst (fun v => decide (v = dateNull)) compareInt a a = 0
    exact absentFirst_self (hint a) h
  | .chars a, h =>
    show absentFirst List.isEmpty compareString a a = 0
    exact absentFirst_self (compareString_self a) h

theorem held_snoc {type : AggregateType} {combine : Value → Value → Value}
    (hstep : ∀ (a : Aggregator) v, (Aggregator.accumulate type a v).value =
      some (Aggregator.step combine a.value v)) :
    held type (vs ++ [x]) = if x.isNull then held type vs
      else if (held type vs).isNull then x else combine x (held type vs) := by
  unfold held
  rw [Aggregator.run_snoc, hstep]
  rfl

/-- MIN and MAX, after one value more. -/
theorem held_best {type : AggregateType} {better : Int → Bool}
    (hstep : ∀ (a : Aggregator) v, (Aggregator.accumulate type a v).value = some (Aggregator.step
      (fun v m => if better (v.compare m) then v else m) a.value v))
    (hbetter : better 0 = false)
    (hheld : held type vs = (best better (nonNull vs)).getD Value.nullValue) :
    held type (vs ++ [x]) = (best better (nonNull (vs ++ [x]))).getD Value.nullValue ↔
      (x.isNull = false → ∀ m, best better (nonNull vs) = some m →
        (better (x.compare m) = true ↔ better (x.order m) = true)) := by
  rw [held_snoc hstep, hheld]
  cases hx : x.isNull with
  | true => simp [nonNull_snoc_of_null hx]
  | false =>
    rw [nonNull_snoc_of_not_null hx, best_snoc, if_neg Bool.false_ne_true, Option.getD_some]
    cases hbest : best better (nonNull vs) with
    | none => simp [isNull_nullValue]
    | some m =>
      have hm : m.isNull = false := isNull_of_mem_nonNull (best_mem hbest)
      rw [Option.getD_some, hm, if_neg Bool.false_ne_true]
      simp only [forall_const, Option.some.injEq, forall_eq']
      by_cases heq : x = m
      · subst heq
        simp [compare_self hx, order_self, hbetter]
      · have hne : m ≠ x := Ne.symm heq
        cases better (x.compare m) <;> cases better (x.order m) <;> simp [heq, hne]

/-- MIN and MAX. -/
theorem best_follows_iff {type : AggregateType} {better : Int → Bool} (havg : type ≠ .avg)
    (hstep : ∀ (a : Aggregator) v, (Aggregator.accumulate type a v).value = some (Aggregator.step
      (fun v m => if better (v.compare m) then v else m) a.value v))
    (hbetter : better 0 = false)
    (hevaluate : ∀ a, Aggregator.evaluate type a = a.value.getD Value.nullValue)
    (hsql : ∀ p, type.sql t p = some ((best better (nonNull p)).getD Value.nullValue)) (vs : List Value) :
    type.Follows t vs ↔ ∀ p, p <+: vs → ∀ q x m, p = q ++ [x] → x.isNull = false →
      best better (nonNull q) = some m → (better (x.compare m) = true ↔ better (x.order m) = true) := by
  have hholds : ∀ p, (type.sql t p = some (Aggregator.evaluate type (Aggregator.run type p)) ∧
      (type = .avg → (Aggregator.run type p).count.toInt = (nonNull p).length ∧
        (nonNull p ≠ [] → ((Aggregator.run type p).value.getD Value.nullValue).toRat = total p))) ↔
      held type p = (best better (nonNull p)).getD Value.nullValue := by
    intro p
    rw [hsql, hevaluate, Option.some.injEq, and_iff_left fun h => absurd h havg]
    exact eq_comm
  unfold AggregateType.Follows
  simp only [hholds]
  refine forall_prefix_iff (T := fun _ => True) ?_ (fun vs x _ _ hheld _ => ?_) vs fun _ _ => trivial
  · exact iff_of_true rfl fun q x m h => absurd h (by simp)
  · rw [held_best hstep hbetter (hheld vs (List.prefix_refl vs))]
    constructor
    · intro h q y m heq hy hm
      obtain ⟨rfl, hxy⟩ := List.append_inj' heq rfl
      obtain rfl := List.singleton_inj.mp hxy
      exact h hy m hm
    · exact fun h hx m hm => h vs x m rfl hx hm

/-- MIN is right if it never passes over a value that is better by too little. -/
theorem min_follows_iff (vs : List Value) :
    AggregateType.min.Follows t vs ↔ AggregateType.min.Fits t vs := by
  rw [@best_follows_iff t _ (fun o => decide (o < 0)) (by decide) (fun a v => ?_) rfl (fun a => rfl)
    fun p => rfl]
  · simp only [decide_eq_true_eq]
    rfl
  · simp only [decide_eq_true_eq]
    rfl

/-- So is MAX, with the order turned around. -/
theorem max_follows_iff (vs : List Value) :
    AggregateType.max.Follows t vs ↔ AggregateType.max.Fits t vs := by
  rw [@best_follows_iff t _ (fun o => decide (o > 0)) (by decide) (fun a v => ?_) rfl (fun a => rfl)
    fun p => rfl]
  · simp only [decide_eq_true_eq]
    rfl
  · simp only [decide_eq_true_eq]
    rfl

end Held

/-! ## SUM and AVG -/

section Numbers

variable {vs : List Value} {x : Value} {t : NumberType} {a b : Number}

theorem exists_number (h : x.type = .number t) : ∃ n, x = .number n ∧ n.type = t := by
  cases x with
  | number n => exact ⟨n, rfl, ColumnType.number.inj h⟩
  | dates v => cases h
  | chars s => cases h

theorem getFloat_ints_inRange (v : Int32) : -2 ^ 31 ≤ (v.toInt : ℚ) ∧ (v.toInt : ℚ) < 2 ^ 31 := by
  have hlo := Int32.le_toInt v
  have hhi := Int32.toInt_lt v
  constructor
  · exact_mod_cast hlo
  · exact_mod_cast hhi

theorem inRange_getFloat (a : Number) : AggregateType.InRange a.type a.getFloat := by
  intro h
  cases a with
  | ints v => exact getFloat_ints_inRange v
  | floats q => cases h

/-- The number that stands for NULL is known from its value. -/
theorem isNull_iff_getFloat (a : Number) : a.isNull = true ↔ a.getFloat = a.type.null.getFloat := by
  cases a with
  | ints v =>
    show decide (v = intNull) = true ↔ (v.toInt : ℚ) = intNull.toInt
    rw [decide_eq_true_eq, Int.cast_inj, Int32.toInt_inj]
  | floats q =>
    show decide (q = floatNull) = true ↔ q = floatNull
    rw [decide_eq_true_eq]

/-- The number that stands for NULL is not zero. -/
theorem null_getFloat_ne_zero (t : NumberType) : t.null.getFloat ≠ 0 := by
  cases t with
  | ints =>
    show ((intNull.toInt : Int) : ℚ) ≠ 0
    exact_mod_cast (by decide : intNull.toInt ≠ 0)
  | floats =>
    show floatNull ≠ 0
    unfold floatNull
    norm_num

/-- A number is the value that represents it, unless it is NULL. -/
theorem represent_getFloat (a : Number) :
    a.type.represent a.getFloat = if a.isNull then none else some (.number a) := by
  cases a with
  | ints v =>
    have hrange := getFloat_ints_inRange v
    show (if -2 ^ 31 < (v.toInt : ℚ) ∧ (v.toInt : ℚ) < 2 ^ 31
      then some (Value.number (.ints (Int32.ofInt (v.toInt : ℚ).num))) else none) = _
    by_cases hnull : v = intNull
    · subst hnull
      rw [if_neg]
      · simp [Number.isNull]
      · rintro ⟨hlo, -⟩
        have hmin : intNull.toInt = -2 ^ 31 := by decide
        rw [hmin] at hlo
        norm_num at hlo
    · rw [if_pos]
      · simp [Number.isNull, hnull]
      · refine ⟨lt_of_le_of_ne hrange.1 fun heq => hnull (Int32.toInt_inj.mp ?_), hrange.2⟩
        have : (v.toInt : ℚ) = ((-2 ^ 31 : Int) : ℚ) := by
          rw [← heq]
          norm_num
        exact_mod_cast this
  | floats q =>
    show (if q = floatNull then none else _) = _
    by_cases hnull : q = floatNull <;> simp [Number.isNull, Number.getFloat, hnull]

/-- What can be stored is in range. -/
theorem inRange_of_represent {q : ℚ} (h : t.represent q ≠ none) : AggregateType.InRange t q := by
  rintro rfl
  unfold NumberType.represent at h
  dsimp only at h
  split at h
  · rename_i hrange
    exact ⟨le_of_lt hrange.1, hrange.2⟩
  · exact absurd rfl h

/-- A sum in range is exact. -/
theorem add_number (ha : a.type = t) (hb : b.type = t)
    (hrange : AggregateType.InRange t (a.getFloat + b.getFloat)) :
    ∃ c, Value.add (.number a) (.number b) = .number c ∧ c.type = t ∧
      c.getFloat = a.getFloat + b.getFloat := by
  subst ha
  cases a with
  | ints v =>
    cases b with
    | floats q => cases hb
    | ints w =>
      refine ⟨.ints (v + w), rfl, rfl, ?_⟩
      obtain ⟨hlo, hhi⟩ : -2 ^ 31 ≤ (v.toInt + w.toInt : ℚ) ∧ (v.toInt + w.toInt : ℚ) < 2 ^ 31 :=
        hrange rfl
      have hlo : -2 ^ 31 ≤ v.toInt + w.toInt := by exact_mod_cast hlo
      have hhi : v.toInt + w.toInt < 2 ^ 31 := by exact_mod_cast hhi
      show ((v + w).toInt : ℚ) = v.toInt + w.toInt
      rw [Int32.toInt_add, Int.bmod_eq_of_le (by omega) (by omega)]
      push_cast
      rfl
  | floats q =>
    cases b with
    | ints w => cases hb
    | floats q' => exact ⟨.floats (q + q'), rfl, rfl, rfl⟩

theorem total_snoc_of_null (h : x.isNull = true) : total (vs ++ [x]) = total vs := by
  unfold total
  rw [nonNull_snoc_of_null h]

theorem total_eq_zero (h : nonNull vs = []) : total vs = 0 := by
  unfold total
  rw [h]
  rfl

/-- An aggregator that adds up the values has a number of their type. -/
theorem held_type {type : AggregateType} (hstep : ∀ (a : Aggregator) v,
    (Aggregator.accumulate type a v).value = some (Aggregator.step Value.add a.value v))
    (htyped : ∀ v ∈ vs, v.type = .number t) :
    (nonNull vs = [] ∧ held type vs = Value.nullValue) ∨
      (nonNull vs ≠ [] ∧ (held type vs).type = .number t) := by
  induction vs using List.reverseRecOn with
  | nil => exact Or.inl ⟨rfl, rfl⟩
  | append_singleton vs x ih =>
    rw [List.forall_mem_append] at htyped
    have hx : x.type = .number t := htyped.2 x (by simp)
    rw [held_snoc hstep]
    cases hnull : x.isNull with
    | true =>
      rw [nonNull_snoc_of_null hnull]
      exact ih htyped.1
    | false =>
      rw [nonNull_snoc_of_not_null hnull, if_neg Bool.false_ne_true]
      refine Or.inr ⟨by simp, ?_⟩
      split
      · exact hx
      · rename_i hheld
        rcases ih htyped.1 with ⟨-, hnullValue⟩ | ⟨-, htype⟩
        · rw [hnullValue, isNull_nullValue] at hheld
          exact absurd rfl hheld
        · obtain ⟨n, hn, hnt⟩ := exists_number htype
          obtain ⟨m, rfl, hmt⟩ := exists_number hx
          rw [hn]
          cases n <;> exact congrArg ColumnType.number hnt

/-- It has their sum, as long as the sum stays in range and is not NULL on the way. -/
theorem held_total {type : AggregateType} (hstep : ∀ (a : Aggregator) v,
    (Aggregator.accumulate type a v).value = some (Aggregator.step Value.add a.value v))
    (htyped : ∀ v ∈ vs, v.type = .number t)
    (hrange : ∀ p, p <+: vs → AggregateType.InRange t (total p))
    (hnull : ∀ q x, q ++ [x] <+: vs → x.isNull = false → nonNull q ≠ [] →
      total q ≠ t.null.getFloat) (hne : nonNull vs ≠ []) :
    ∃ n, held type vs = .number n ∧ n.type = t ∧ n.getFloat = total vs := by
  -- the induction takes the last value off, as the aggregator adds it last
  induction vs using List.reverseRecOn with
  | nil => exact absurd rfl hne
  | append_singleton vs x ih =>
    have htyped' := htyped
    rw [List.forall_mem_append] at htyped'
    obtain ⟨m, rfl, hmt⟩ := exists_number (htyped'.2 x (by simp))
    have hinit : ∀ {p}, p <+: vs → p <+: vs ++ [.number m] := fun h => h.trans (List.prefix_append _ _)
    have ih := ih htyped'.1 (fun p hp => hrange p (hinit hp)) fun q y hq => hnull q y (hinit hq)
    rw [held_snoc hstep]
    -- a NULL is passed over
    cases hx : (Value.number m).isNull with
    | true =>
      rw [nonNull_snoc_of_null hx] at hne
      rw [total_snoc_of_null hx, if_pos rfl]
      exact ih hne
    | false =>
      rw [if_neg Bool.false_ne_true, total_snoc_of_not_null hx]
      -- the first number is taken as it is, the others are added
      by_cases hvs : nonNull vs = []
      · rcases held_type hstep htyped'.1 with ⟨-, hheld⟩ | ⟨hvs', -⟩
        · rw [hheld, isNull_nullValue, if_pos rfl]
          refine ⟨m, rfl, hmt, ?_⟩
          rw [total_eq_zero hvs, zero_add]
          rfl
        · exact absurd hvs hvs'
      · obtain ⟨n, hn, hnt, htotal⟩ := ih hvs
        have hnn : (Value.number n).isNull ≠ true := by
          show n.isNull ≠ true
          rw [ne_eq, isNull_iff_getFloat, hnt, htotal]
          exact hnull vs _ (List.prefix_refl _) hx hvs
        rw [hn, if_neg hnn, ← htotal, add_comm]
        refine add_number hmt hnt ?_
        rw [add_comm, htotal, ← show total (vs ++ [.number m]) = total vs + m.getFloat from
          total_snoc_of_not_null hx]
        exact hrange _ (List.prefix_refl _)

theorem sum_step (a : Aggregator) (v : Value) :
    (Aggregator.accumulate .sum a v).value = some (Aggregator.step Value.add a.value v) := rfl

theorem avg_step (a : Aggregator) (v : Value) :
    (Aggregator.accumulate .avg a v).value = some (Aggregator.step Value.add a.value v) := rfl

/-- SUM. -/
theorem sum_follows_iff (htyped : ∀ v ∈ vs, v.type = .number t) :
    AggregateType.sum.Follows t vs ↔ AggregateType.sum.Fits t vs := by
  constructor
  -- what the client is to get is not defined where the sum does not fit
  · intro h p hp
    show AggregateType.sum.sql t p ≠ none
    rw [(h p hp).1]
    exact Option.some_ne_none _
  · intro h p hp
    have hsql : ∀ q, AggregateType.sum.sql t q =
        if nonNull q = [] then some Value.nullValue else t.represent (total q) := fun q => rfl
    -- every sum on the way fits, so no addition is cut off
    have hfits : ∀ q, q <+: p → nonNull q ≠ [] → t.represent (total q) ≠ none := by
      intro q hq hne
      have := h q (hq.trans hp)
      rwa [AggregateType.FitsAt, hsql, if_neg hne] at this
    have htyped : ∀ v ∈ p, v.type = .number t := fun v hv => htyped v (hp.subset hv)
    refine ⟨?_, fun havg => absurd havg (by decide)⟩
    show _ = some (held .sum p)
    rw [hsql]
    rcases held_type sum_step htyped with ⟨hnil, hheld⟩ | ⟨hne, -⟩
    · rw [if_pos hnil, hheld]
    · have hrange : ∀ q, q <+: p → AggregateType.InRange t (total q) := by
        intro q hq
        by_cases hq' : nonNull q = []
        · rw [total_eq_zero hq']
          exact fun _ => by norm_num
        · exact inRange_of_represent (hfits q hq hq')
      -- nor is one taken for NULL on the way
      have hnull : ∀ q x, q ++ [x] <+: p → x.isNull = false → nonNull q ≠ [] →
          total q ≠ t.null.getFloat := by
        intro q x hq _ hq' heq
        refine hfits q ((List.prefix_append _ _).trans hq) hq' ?_
        have hnullType : t.null.type = t := by cases t <;> rfl
        have hrep := represent_getFloat t.null
        rw [hnullType, NumberType.isNull_null, if_pos rfl] at hrep
        rw [heq, hrep]
      obtain ⟨n, hn, hnt, htotal⟩ := held_total sum_step htyped hrange hnull hne
      have hrep := represent_getFloat n
      rw [hnt, htotal] at hrep
      rw [if_neg hne, hn, hrep, if_neg]
      intro hnullN
      rw [hnullN, if_pos rfl] at hrep
      exact hfits p (List.prefix_refl p) hne hrep

/-! ### AVG -/

/-- AVG counts what is not NULL. -/
theorem run_avg_count (vs : List Value) :
    (Aggregator.run .avg vs).count = Int32.ofNat (nonNull vs).length := by
  induction vs using List.reverseRecOn with
  | nil => rfl
  | append_singleton vs x ih =>
    have hstart : (if (Aggregator.run .avg vs).value.isNone then 0 else (Aggregator.run .avg vs).count) =
        (Aggregator.run .avg vs).count := by
      rcases List.eq_nil_or_concat vs with rfl | ⟨vs, y, rfl⟩
      · rfl
      · rw [List.concat_eq_append, Aggregator.run_snoc]
        rfl
    have hcount : (Aggregator.run .avg (vs ++ [x])).count = if x.isNull
        then (if (Aggregator.run .avg vs).value.isNone then 0 else (Aggregator.run .avg vs).count)
        else (if (Aggregator.run .avg vs).value.isNone then 0
          else (Aggregator.run .avg vs).count) + 1 := by
      rw [Aggregator.run_snoc]
      rfl
    rw [hcount, hstart, ih]
    cases hx : x.isNull with
    | true => rw [nonNull_snoc_of_null hx, if_pos rfl]
    | false =>
      rw [nonNull_snoc_of_not_null hx, if_neg Bool.false_ne_true, List.length_append]
      simp

/-- The quotient of the sum and the number of the values. -/
theorem evaluate_avg {p : List Value} (hcount : (nonNull p).length < 2 ^ 31)
    (hheld : (nonNull p = [] ∧ held .avg p = Value.nullValue) ∨
      (nonNull p ≠ [] ∧ ∃ n, held .avg p = .number n ∧ n.getFloat = total p)) :
    Aggregator.evaluate .avg (Aggregator.run .avg p) = .number (.floats
      (if nonNull p = [] then floatNull else total p / (nonNull p).length)) := by
  have heps : (0 : ℚ) < epsilon := by
    unfold epsilon
    norm_num
  -- the value held is the one divided
  have hval : ∀ v, (Aggregator.run .avg p).value = some v → held .avg p = v := by
    intro v hv
    unfold held
    rw [hv]
    rfl
  have hevaluate : Aggregator.evaluate .avg (Aggregator.run .avg p) =
      ((Aggregator.run .avg p).value.getD (.number (.ints 0))).divide (Aggregator.run .avg p).count := rfl
  have hcountFloat : (Number.ints (Int32.ofNat (nonNull p).length)).getFloat = (nonNull p).length := by
    show ((Int32.ofNat (nonNull p).length).toInt : ℚ) = _
    rw [Int32.toInt_ofNat_of_lt (by omega)]
    push_cast
    rfl
  rw [hevaluate, run_avg_count]
  -- without a number the count is 0, and the division gives NULL
  rcases hheld with ⟨hnil, hheld⟩ | ⟨hne, n, hheld, htotal⟩
  · have hnumber : ∃ a, (Aggregator.run .avg p).value.getD (.number (.ints 0)) = .number a := by
      cases hv : (Aggregator.run .avg p).value with
      | none => exact ⟨_, rfl⟩
      | some v =>
        rw [← hval v hv, hheld]
        exact ⟨_, rfl⟩
    obtain ⟨a, ha⟩ := hnumber
    rw [ha, if_pos hnil]
    show Value.number (FloatType.divide a _) = _
    unfold FloatType.divide
    rw [hcountFloat, hnil, if_pos (by simp [heps])]
  -- with a number the count is at least 1
  · have hv : (Aggregator.run .avg p).value.getD (.number (.ints 0)) = .number n := by
      cases hv : (Aggregator.run .avg p).value with
      | none =>
        rcases List.eq_nil_or_concat p with rfl | ⟨p, y, rfl⟩
        · exact absurd rfl hne
        · rw [List.concat_eq_append, Aggregator.run_snoc, avg_step] at hv
          cases hv
      | some v => rw [← hheld, ← hval v hv, Option.getD_some]
    rw [hv, if_neg hne]
    show Value.number (FloatType.divide n _) = _
    unfold FloatType.divide
    have hpos : 1 ≤ ((nonNull p).length : ℚ) := by
      have := List.length_pos_iff.mpr hne
      exact_mod_cast this
    have heps1 : epsilon < 1 := by
      unfold epsilon
      norm_num
    rw [hcountFloat, if_neg fun hsmall => absurd hsmall.2 (not_lt.mpr (by linarith)), htotal]

/-- The sum has to be right after each row, and then the quotient is. -/
theorem avg_follows_iff (htyped : ∀ v ∈ vs, v.type = .number t) :
    AggregateType.avg.Follows t vs ↔ AggregateType.avg.Fits t vs := by
  have hsql : ∀ q, AggregateType.avg.sql t q = if nonNull q = [] then some (.number NumberType.floats.null)
      else NumberType.floats.represent (total q / (nonNull q).length) := fun q => rfl
  constructor
  · intro h p hp
    obtain ⟨hresult, hcounts⟩ := h p hp
    obtain ⟨hcount, htotal⟩ := hcounts rfl
    have htypedp : ∀ v ∈ p, v.type = .number t := fun v hv => htyped v (hp.subset hv)
    refine ⟨?_, ?_, ?_, ?_⟩
    · rw [hresult]
      exact Option.some_ne_none _
    · have := Int32.toInt_lt (Aggregator.run .avg p).count
      omega
    · rcases held_type avg_step htypedp with ⟨hnil, -⟩ | ⟨hne, htype⟩
      · rw [total_eq_zero hnil]
        exact fun _ => by norm_num
      · obtain ⟨n, hn, hnt⟩ := exists_number htype
        have htotal : (held .avg p).toRat = total p := htotal hne
        rw [hn] at htotal
        rw [← htotal, ← hnt]
        exact inRange_getFloat n
    · rintro q x rfl hx hq heq
      have hqp : q <+: q ++ [x] := List.prefix_append _ _
      rcases held_type avg_step fun v hv => htypedp v (hqp.subset hv) with ⟨hnil, -⟩ | ⟨-, htype⟩
      · exact hq hnil
      · obtain ⟨n, hn, hnt⟩ := exists_number htype
        have htotalq : (held .avg q).toRat = total q := ((h q (hqp.trans hp)).2 rfl).2 hq
        have hnull : (held .avg q).isNull = true := by
          rw [hn] at htotalq ⊢
          refine (isNull_iff_getFloat n).mpr ?_
          rw [hnt, ← heq]
          exact htotalq
        have htotal : (held .avg (q ++ [x])).toRat = total (q ++ [x]) := by
          refine htotal ?_
          rw [nonNull_snoc_of_not_null hx]
          simp
        rw [held_snoc avg_step, hx, hnull, if_neg Bool.false_ne_true, if_pos rfl,
          total_snoc_of_not_null hx, heq] at htotal
        exact null_getFloat_ne_zero t (by linarith)
  · intro h p hp
    obtain ⟨hne, hcount, hrange, -⟩ := h p hp
    have htypedp : ∀ v ∈ p, v.type = .number t := fun v hv => htyped v (hp.subset hv)
    have hheld : (nonNull p = [] ∧ held .avg p = Value.nullValue) ∨
        (nonNull p ≠ [] ∧ ∃ n, held .avg p = .number n ∧ n.getFloat = total p) := by
      rcases held_type avg_step htypedp with hnil | ⟨hne, -⟩
      · exact Or.inl hnil
      · obtain ⟨n, hn, -, htotal⟩ := held_total avg_step htypedp
          (fun q hq => (h q (hq.trans hp)).2.2.1)
          (fun q x hq hx hqne => (h (q ++ [x]) (hq.trans hp)).2.2.2 q x rfl hx hqne) hne
        exact Or.inr ⟨hne, n, hn, htotal⟩
    refine ⟨?_, fun _ => ⟨?_, fun hpne => ?_⟩⟩
    · rw [evaluate_avg hcount hheld]
      rw [hsql] at hne ⊢
      split
      · rfl
      · rename_i hpne
        rw [if_neg hpne] at hne
        unfold NumberType.represent at hne ⊢
        dsimp only at hne ⊢
        split
        · rename_i hnull
          rw [if_pos hnull] at hne
          exact absurd rfl hne
        · rfl
    · rw [run_avg_count, Int32.toInt_ofNat_of_lt (by omega)]
    · rcases hheld with ⟨hnil, -⟩ | ⟨-, n, hn, htotal⟩
      · exact absurd hnil hpne
      · show (held .avg p).toRat = total p
        rw [hn]
        exact htotal

/-- **An aggregator follows the values exactly if they fit.** -/
theorem follows_iff {type : AggregateType} (vs : List Value)
    (htyped : type = .sum ∨ type = .avg → ∀ v ∈ vs, v.type = .number t) :
    type.Follows t vs ↔ type.Fits t vs := by
  cases type with
  | count => exact count_follows_iff vs
  | countStar => exact countStar_follows_iff vs
  | sum => exact sum_follows_iff (htyped (Or.inl rfl))
  | avg => exact avg_follows_iff (htyped (Or.inr rfl))
  | max => exact max_follows_iff vs
  | min => exact min_follows_iff vs

end Numbers

end Miniob.Expr
