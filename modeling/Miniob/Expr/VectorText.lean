/-
  Vector literals (`VectorType::set_from_str` in src/observer/common/type/vector_type.cpp).

  1. The code goes through the string without its blanks by index; `charAt` reads the terminator behind
     the string, and nothing behind that.
  2. `setLoop_at`: from any position on, the loop does what `scanItems` does with the characters that are
     left: an item is a run of digits and dots and ends with ',' or ']', and with one character left
     the loop is over.
  3. `scanItems` accepts every rest of a literal with the numbers of the literal (`Items.scan`), and
     exactly the rests that are `Loose`.
  4. So the first and the last character are never looked at, and an item may be empty or have two dots;
     `set_from_str_right_iff`: the code is right about the strings for which that makes no difference.

  A number is taken as the exact decimal; `strtof` rounds it.
-/
import Mathlib.Algebra.Field.Rat
import Mathlib.Data.List.TakeWhile

namespace Miniob.Expr.VectorText

/-! ## The code -/

/-- Why there is no vector. -/
inductive Failure where
  | invalidArgument
  /-- A character behind the terminator is read. -/
  | pastString
  deriving DecidableEq

/-- The characters: comma, dot, blank and the brackets. -/
def comma : UInt8 := 44

def dot : UInt8 := 46

def blank : UInt8 := 32

def opening : UInt8 := 91

def closing : UInt8 := 93

def isDigit (c : UInt8) : Bool := 48 ≤ c ∧ c ≤ 57

/-- `is_vector_unit_char`. -/
def isVectorUnitChar (c : UInt8) : Bool := isDigit c ∨ c = dot

/-- `is_valid_char`. -/
def isValidChar (c : UInt8) : Bool :=
  isVectorUnitChar c ∨ c = comma ∨ c = opening ∨ c = closing ∨ c = blank

/-- The digits as a number. -/
def digitsValue (ds : List UInt8) : Nat := ds.foldl (fun n c => 10 * n + (c.toNat - 48)) 0

/-- `strtof`, for a string of digits and dots and what follows them: the longest decimal in front, and 0
    if there is none. -/
def strtof (s : List UInt8) : ℚ :=
  let whole := s.takeWhile isDigit
  let fraction := match s.dropWhile isDigit with
    | [] => []
    | c :: rest => if c = dot then rest.takeWhile isDigit else []
  digitsValue (whole ++ fraction) / 10 ^ fraction.length

/-- The first loop: the characters without blanks. -/
def withoutBlanks : List UInt8 → Except Failure (List UInt8)
  | [] => .ok []
  | c :: data =>
    if ¬ isValidChar c then .error .invalidArgument
    else match withoutBlanks data with
      | .error e => .error e
      | .ok ss => .ok (if c ≠ blank ∧ c ≠ 10 then c :: ss else ss)

/-- `s[j]`. -/
def charAt (s : List UInt8) (j : Nat) : Except Failure UInt8 :=
  match s[j]? with
  | some c => .ok c
  | none => if j = s.length then .ok 0 else .error .pastString

/-- The inner loop: the end of the digits and dots. -/
def unitEnd (s : List UInt8) (len j : Nat) : Except Failure Nat :=
  if j < len - 1 then
    match charAt s j with
    | .error e => .error e
    | .ok c => if isVectorUnitChar c then unitEnd s len (j + 1) else .ok j
  else .ok j
termination_by len - 1 - j

/-- `ss.size() - 1`, without a sign. -/
def sizeLessOne (n : Nat) : Nat := if n = 0 then 2 ^ 64 - 1 else n - 1

/-- The end of a number is not in front of its start. -/
theorem unitEnd_ge {s : List UInt8} {len j k : Nat} (h : unitEnd s len j = .ok k) : j ≤ k := by
  induction j using unitEnd.induct s len with
  | case1 j hlt e hc =>
    rw [unitEnd, if_pos hlt, hc] at h
    cases h
  | case2 j hlt c hc hunit ih =>
    rw [unitEnd, if_pos hlt, hc] at h
    dsimp only at h
    rw [if_pos hunit] at h
    have := ih h
    omega
  | case3 j hlt c hc hunit =>
    rw [unitEnd, if_pos hlt, hc] at h
    dsimp only at h
    rw [if_neg hunit] at h
    exact Nat.le_of_eq (Except.ok.inj h)
  | case4 j hlt =>
    rw [unitEnd, if_neg hlt] at h
    exact Nat.le_of_eq (Except.ok.inj h)

/-- The second loop. -/
def setLoop (s : List UInt8) (len i : Nat) (values : List ℚ) : Except Failure (List ℚ) :=
  if i < sizeLessOne s.length then
    match _h : unitEnd s len i with
    | .error e => .error e
    | .ok j =>
      match charAt s j with
      | .error e => .error e
      | .ok c =>
        if c ≠ comma ∧ c ≠ closing then .error .invalidArgument
        else setLoop s len (j + 1) (values ++ [strtof (s.drop i)])
  else .ok values
termination_by sizeLessOne s.length - i
decreasing_by
  have := unitEnd_ge _h
  omega

/-- `set_from_str`. -/
def setFromStr (data : List UInt8) : Except Failure (List ℚ) :=
  if data.length ≤ 2 then .error .invalidArgument
  else match withoutBlanks data with
    | .error e => .error e
    | .ok ss => setLoop ss data.length 1 []

/-! ## Literals -/

/-- Digits with at most one dot and at least one digit, and the number they are. -/
def IsNumber (w : List UInt8) (q : ℚ) : Prop :=
  ∃ whole fraction, (∀ c ∈ whole, isDigit c = true) ∧ (∀ c ∈ fraction, isDigit c = true) ∧
    whole ++ fraction ≠ [] ∧ (w = whole ∧ fraction = [] ∨ w = whole ++ dot :: fraction) ∧
    q = digitsValue (whole ++ fraction) / 10 ^ fraction.length

/-- Numbers with commas between them, and the closing bracket. -/
inductive Items : List UInt8 → List ℚ → Prop
  | last {w q} : IsNumber w q → Items (w ++ [closing]) [q]
  | more {w q rest qs} : IsNumber w q → Items rest qs → Items (w ++ comma :: rest) (q :: qs)

/-- A vector literal without blanks, and its numbers. -/
def VectorLiteral (s : List UInt8) (values : List ℚ) : Prop := ∃ body, s = opening :: body ∧ Items body values

/-- Runs of digits and dots, each with a comma or a bracket behind it, and at most one more character. -/
inductive Loose : List UInt8 → Prop
  | rest {s} : s.length ≤ 1 → Loose s
  | segment {w c s} : (∀ b ∈ w, isVectorUnitChar b = true) → c = comma ∨ c = closing → Loose s →
      Loose (w ++ c :: s)

/-- Long enough, without stray characters, and loose behind its first character. -/
def LooselyAccepted (data : List UInt8) : Prop :=
  2 < data.length ∧ (∀ c ∈ data, isValidChar c = true) ∧ Loose (data.filter (· ≠ blank)).tail

/-- The code accepts the literals with their numbers and nothing else, and reads nothing behind the
    string. -/
structure LiteralRight (data : List UInt8) : Prop where
  accepts : ∀ values, setFromStr data = .ok values ↔ VectorLiteral (data.filter (· ≠ blank)) values
  inside : setFromStr data ≠ .error .pastString

/-! ## Characters -/

theorem isUnit_of_isDigit {c : UInt8} (h : isDigit c = true) : isVectorUnitChar c = true := by
  simp [isVectorUnitChar, h]

theorem not_isDigit_dot : isDigit dot = false := by decide

theorem not_isUnit {c : UInt8} (h : c = comma ∨ c = closing) : isVectorUnitChar c = false := by
  rcases h with rfl | rfl <;> decide

theorem not_isDigit {c : UInt8} (h : isVectorUnitChar c = false) : isDigit c = false ∧ c ≠ dot := by
  simpa [isVectorUnitChar] using h

/-- Blanks are left out, and any other foreign character is an error. -/
theorem withoutBlanks_eq : ∀ data : List UInt8, withoutBlanks data =
    if data.all isValidChar then .ok (data.filter (· ≠ blank)) else .error .invalidArgument
  | [] => rfl
  | c :: data => by
    rw [withoutBlanks, withoutBlanks_eq data, List.all_cons]
    cases hc : isValidChar c with
    | false => rfl
    | true =>
      cases hall : data.all isValidChar with
      | false => rfl
      | true =>
        rw [if_neg (not_not.mpr rfl)]
        show Except.ok (if c ≠ blank ∧ c ≠ 10 then c :: data.filter (· ≠ blank) else data.filter (· ≠ blank)) =
          .ok ((c :: data).filter (· ≠ blank))
        by_cases hblank : c = blank
        · subst hblank
          rw [if_neg (by simp), List.filter_cons_of_neg (by simp)]
        · have hline : c ≠ 10 := by
            rintro rfl
            cases hc
          rw [if_pos ⟨hblank, hline⟩, List.filter_cons_of_pos (by simpa using hblank)]

/-! ## The loop over the rest of the string -/

/-- The loop from a position on, on the characters that are left. -/
def scanItems (rest : List UInt8) : Option (List ℚ) :=
  if rest.length ≤ 1 then some []
  else match _h : rest.dropWhile isVectorUnitChar with
    | [] => none
    | c :: tail =>
      if c = comma ∨ c = closing then (scanItems tail).map (strtof rest :: ·) else none
termination_by rest.length
decreasing_by
  have hle := List.length_dropWhile_le isVectorUnitChar rest
  rw [_h, List.length_cons] at hle
  omega

theorem scanItems_short {s : List UInt8} (h : s.length ≤ 1) : scanItems s = some [] := by
  rw [scanItems, if_pos h]

/-- Digits and dots to the end. -/
theorem scanItems_run {w : List UInt8} (hw : ∀ b ∈ w, isVectorUnitChar b = true)
    (hlong : ¬ w.length ≤ 1) : scanItems w = none := by
  have hdrop : w.dropWhile isVectorUnitChar = [] := List.dropWhile_eq_nil_iff.mpr hw
  rw [scanItems, if_neg hlong]
  split
  · rfl
  · rename_i heq
    rw [hdrop] at heq
    cases heq

/-- Digits and dots up to another character. -/
theorem scanItems_stop {w rest : List UInt8} {c : UInt8} (hw : ∀ b ∈ w, isVectorUnitChar b = true)
    (hc : isVectorUnitChar c = false) (hlong : ¬ (w ++ c :: rest).length ≤ 1) :
    scanItems (w ++ c :: rest) =
      if c = comma ∨ c = closing then (scanItems rest).map (strtof (w ++ c :: rest) :: ·) else none := by
  have hdrop : (w ++ c :: rest).dropWhile isVectorUnitChar = c :: rest := by
    rw [List.dropWhile_append_of_pos hw, List.dropWhile_cons_of_neg (by simp [hc])]
  rw [scanItems, if_neg hlong]
  split
  · rename_i heq
    rw [hdrop] at heq
    cases heq
  · rename_i d tail heq
    rw [hdrop] at heq
    obtain ⟨rfl, rfl⟩ := List.cons.inj heq
    rfl

/-- Where the digits and dots end. -/
theorem split_units : ∀ s : List UInt8, (∀ b ∈ s, isVectorUnitChar b = true) ∨
    ∃ w c tail, s = w ++ c :: tail ∧ (∀ b ∈ w, isVectorUnitChar b = true) ∧ isVectorUnitChar c = false
  | [] => Or.inl (List.forall_mem_nil _)
  | c :: s => by
    cases hc : isVectorUnitChar c with
    | false => exact Or.inr ⟨[], c, s, rfl, List.forall_mem_nil _, hc⟩
    | true =>
      rcases split_units s with hall | ⟨w, d, tail, rfl, hw, hd⟩
      · exact Or.inl (List.forall_mem_cons.mpr ⟨hc, hall⟩)
      · exact Or.inr ⟨c :: w, d, tail, rfl, List.forall_mem_cons.mpr ⟨hc, hw⟩, hd⟩

theorem charAt_append {pre rest : List UInt8} {c : UInt8} :
    charAt (pre ++ c :: rest) pre.length = .ok c := by
  rw [charAt, List.getElem?_append_right (Nat.le_refl _), Nat.sub_self]
  rfl

theorem charAt_end (s : List UInt8) : charAt s s.length = .ok 0 := by
  rw [charAt, List.getElem?_eq_none (Nat.le_refl _)]
  exact if_pos rfl

/-- Digits and dots are passed over. -/
theorem unitEnd_run {len : Nat} {w : List UInt8} (hw : ∀ b ∈ w, isVectorUnitChar b = true) :
    ∀ {pre rest : List UInt8}, pre.length + w.length ≤ len - 1 →
      unitEnd (pre ++ w ++ rest) len pre.length
        = unitEnd (pre ++ w ++ rest) len (pre.length + w.length) := by
  induction w with
  | nil =>
    intro pre rest _
    rfl
  | cons c w ih =>
    intro pre rest hlen
    rw [List.length_cons] at hlen ⊢
    rw [List.forall_mem_cons] at hw
    have hat : charAt (pre ++ c :: w ++ rest) pre.length = .ok c := by
      rw [List.append_assoc, List.cons_append]
      exact charAt_append
    have hnext := @ih hw.2 (pre ++ [c]) rest (by rw [List.length_append, List.length_singleton]; omega)
    rw [List.length_append, List.length_singleton, List.append_assoc pre, List.singleton_append] at hnext
    rw [unitEnd, if_pos (by omega), hat]
    dsimp only
    rw [if_pos hw.1, hnext, show pre.length + 1 + w.length = pre.length + (w.length + 1) by omega]

/-- It ends in front of another character. -/
theorem unitEnd_before {len : Nat} {pre w rest : List UInt8} {c : UInt8}
    (hw : ∀ b ∈ w, isVectorUnitChar b = true) (hc : isVectorUnitChar c = false)
    (hlen : (pre ++ w ++ c :: rest).length ≤ len) :
    unitEnd (pre ++ w ++ c :: rest) len pre.length = .ok (pre ++ w).length := by
  rw [List.length_append, List.length_append, List.length_cons] at hlen
  have hat : charAt (pre ++ w ++ c :: rest) (pre ++ w).length = .ok c := charAt_append
  rw [unitEnd_run hw (by omega), ← List.length_append, unitEnd, hat]
  dsimp only
  rw [hc, if_neg Bool.false_ne_true, ite_self]

/-- A run that goes to the end of the string is refused. -/
theorem setLoop_unended {len : Nat} {pre w : List UInt8} {values : List ℚ} (hpre : pre ≠ [])
    (hw : ∀ b ∈ w, isVectorUnitChar b = true) (hlong : 1 < w.length) (hlen : (pre ++ w).length ≤ len) :
    setLoop (pre ++ w) len pre.length values = .error .invalidArgument := by
  have hpos := List.length_pos_iff.mpr hpre
  -- the run ends at the terminator or at the last character, neither of which ends an item
  have hend : ∃ j c, unitEnd (pre ++ w) len pre.length = .ok j ∧ charAt (pre ++ w) j = .ok c ∧
      c ≠ comma ∧ c ≠ closing := by
    by_cases hroom : (pre ++ w).length ≤ len - 1
    · refine ⟨(pre ++ w).length, 0, ?_, charAt_end _, by decide, by decide⟩
      have hrun := @unitEnd_run len w hw pre [] (by rwa [List.length_append] at hroom)
      rw [List.append_nil, ← List.length_append] at hrun
      rw [hrun, unitEnd, charAt_end]
      dsimp only
      rw [if_neg (show ¬ isVectorUnitChar 0 = true by decide), ite_self]
    · have hne : w ≠ [] := fun h => by rw [h] at hlong; exact absurd hlong (by decide)
      obtain ⟨w', c, rfl⟩ := List.eq_nil_or_concat w |>.resolve_left hne
      rw [List.concat_eq_append] at hw hlen hroom ⊢
      have hw' : ∀ b ∈ w', isVectorUnitChar b = true := fun b hb => hw b (List.mem_append_left _ hb)
      have hc := hw c (List.mem_append_right _ (List.mem_singleton_self c))
      rw [List.length_append, List.length_append, List.length_singleton] at hlen hroom
      refine ⟨(pre ++ w').length, c, ?_, ?_, ?_, ?_⟩
      · rw [← List.append_assoc, unitEnd_run hw' (by omega), ← List.length_append, unitEnd,
          if_neg (by rw [List.length_append]; omega)]
      · rw [← List.append_assoc]
        exact charAt_append
      · rintro rfl
        exact absurd hc (by decide)
      · rintro rfl
        exact absurd hc (by decide)
  obtain ⟨j, c, hj, hat, hcomma, hclosing⟩ := hend
  have hmore : pre.length < sizeLessOne (pre ++ w).length := by
    rw [sizeLessOne, if_neg (by rw [List.length_append]; omega), List.length_append]
    omega
  rw [setLoop, if_pos hmore]
  split
  · rename_i e he
    rw [hj] at he
    cases he
  · rename_i k hk
    rw [hj] at hk
    obtain rfl := Except.ok.inj hk
    rw [hat]
    exact if_pos ⟨hcomma, hclosing⟩

/-- The items that were read, and those of the rest, if it is one of items. -/
def withItems (values : List ℚ) : Option (List ℚ) → Except Failure (List ℚ)
  | some vs => .ok (values ++ vs)
  | none => .error .invalidArgument

/-- **Run.**  From a position on, the loop scans the characters that are left. -/
theorem setLoop_at {len : Nat} : ∀ (n : Nat) {pre rest : List UInt8} {values : List ℚ},
    rest.length = n → pre ≠ [] → (pre ++ rest).length ≤ len →
    setLoop (pre ++ rest) len pre.length values = withItems values (scanItems rest) := by
  intro n
  induction n using Nat.strong_induction_on with
  | _ n ih =>
  intro pre rest values hn hpre hlen
  have hpos := List.length_pos_iff.mpr hpre
  have hsize : sizeLessOne (pre ++ rest).length = pre.length + rest.length - 1 := by
    rw [sizeLessOne, if_neg (by rw [List.length_append]; omega), List.length_append]
  by_cases hshort : rest.length ≤ 1
  · rw [scanItems_short hshort, setLoop, if_neg (by rw [hsize]; omega)]
    rw [withItems, List.append_nil]
  · rcases split_units rest with hw | ⟨w, c, tail, rfl, hw, hc⟩
    · rw [scanItems_run hw hshort]
      exact setLoop_unended hpre hw (by omega) hlen
    · rw [← List.append_assoc] at hlen
      have hj := unitEnd_before hw hc hlen
      have hat : charAt (pre ++ w ++ c :: tail) (pre ++ w).length = .ok c := charAt_append
      have hdrop : (pre ++ (w ++ c :: tail)).drop pre.length = w ++ c :: tail := List.drop_left
      rw [List.append_assoc] at hj hat
      rw [scanItems_stop hw hc hshort, setLoop, if_pos (by rw [hsize]; omega)]
      split
      · rename_i e he
        rw [hj] at he
        cases he
      · rename_i k hk
        rw [hj] at hk
        obtain rfl := Except.ok.inj hk
        rw [hat]
        dsimp only
        -- behind a delimiter the loop goes on with the item it has read
        by_cases hdelim : c = comma ∨ c = closing
        · have hnot : ¬ (c ≠ comma ∧ c ≠ closing) := fun h => hdelim.elim h.1 h.2
          have hstep : pre ++ (w ++ c :: tail) = pre ++ w ++ [c] ++ tail := by simp
          have hlt : tail.length < n := by
            rw [← hn, List.length_append, List.length_cons]
            omega
          have hnext := @ih tail.length hlt (pre ++ w ++ [c]) tail
            (values ++ [strtof (w ++ c :: tail)]) rfl (List.append_ne_nil_of_right_ne_nil _ (List.cons_ne_nil _ _))
            (by rwa [← hstep, ← List.append_assoc])
          rw [← hstep, @List.length_append _ _ [c], List.length_singleton] at hnext
          rw [if_neg hnot, if_pos hdelim, hdrop, hnext]
          cases scanItems tail with
          | none => rfl
          | some vs =>
            dsimp only [Option.map_some, withItems]
            rw [List.append_assoc, List.singleton_append]
        · rw [if_pos (not_or.mp hdelim), if_neg hdelim]
          rfl

/-! ## What is scanned -/

theorem takeWhile_digits {w tail : List UInt8} {c : UInt8} (hw : ∀ b ∈ w, isDigit b = true)
    (hc : isDigit c = false) : (w ++ c :: tail).takeWhile isDigit = w := by
  rw [List.takeWhile_append_of_pos hw, List.takeWhile_cons_of_neg (by simp [hc]), List.append_nil]

theorem dropWhile_digits {w tail : List UInt8} {c : UInt8} (hw : ∀ b ∈ w, isDigit b = true)
    (hc : isDigit c = false) : (w ++ c :: tail).dropWhile isDigit = c :: tail := by
  rw [List.dropWhile_append_of_pos hw, List.dropWhile_cons_of_neg (by simp [hc])]

/-- `strtof` reads a number to its end. -/
theorem strtof_number {w tail : List UInt8} {q : ℚ} {c : UInt8} (hw : IsNumber w q)
    (hc : isVectorUnitChar c = false) : strtof (w ++ c :: tail) = q := by
  obtain ⟨whole, fraction, hwhole, hfraction, -, ⟨rfl, rfl⟩ | rfl, rfl⟩ := hw
  · rw [strtof, takeWhile_digits hwhole (not_isDigit hc).1, dropWhile_digits hwhole (not_isDigit hc).1]
    dsimp only
    rw [if_neg (not_isDigit hc).2]
  · rw [List.append_assoc, List.cons_append, strtof, takeWhile_digits hwhole not_isDigit_dot,
      dropWhile_digits hwhole not_isDigit_dot]
    dsimp only
    rw [if_pos rfl, takeWhile_digits hfraction (not_isDigit hc).1]

/-- A number has characters, and only those of numbers. -/
theorem IsNumber.units {w : List UInt8} {q : ℚ} (hw : IsNumber w q) :
    w ≠ [] ∧ ∀ b ∈ w, isVectorUnitChar b = true := by
  obtain ⟨whole, fraction, hwhole, hfraction, hne, ⟨rfl, rfl⟩ | rfl, -⟩ := hw
  · exact ⟨by rwa [List.append_nil] at hne, fun b hb => isUnit_of_isDigit (hwhole b hb)⟩
  · refine ⟨List.append_ne_nil_of_right_ne_nil _ (List.cons_ne_nil _ _), fun b hb => ?_⟩
    rcases List.mem_append.mp hb with hb | hb
    · exact isUnit_of_isDigit (hwhole b hb)
    · rcases List.mem_cons.mp hb with rfl | hb
      · decide
      · exact isUnit_of_isDigit (hfraction b hb)

/-- One item is scanned. -/
theorem scanItems_item {w rest : List UInt8} {c : UInt8} (hw : ∀ b ∈ w, isVectorUnitChar b = true)
    (hc : c = comma ∨ c = closing) (hlong : ¬ (w ++ c :: rest).length ≤ 1) :
    scanItems (w ++ c :: rest) = (scanItems rest).map (strtof (w ++ c :: rest) :: ·) := by
  rw [scanItems_stop hw (not_isUnit hc) hlong, if_pos hc]

theorem number_long {w rest : List UInt8} {q : ℚ} {c : UInt8} (hw : IsNumber w q) :
    ¬ (w ++ c :: rest).length ≤ 1 := by
  have hpos := List.length_pos_iff.mpr hw.units.1
  rw [List.length_append, List.length_cons]
  omega

/-- The items of a literal are scanned with their numbers. -/
theorem Items.scan {body : List UInt8} {qs : List ℚ} (h : Items body qs) : scanItems body = some qs := by
  induction h with
  | @last w q hw =>
    rw [scanItems_item hw.units.2 (Or.inr rfl) (number_long hw), scanItems_short (Nat.zero_le _),
      strtof_number hw (by decide)]
    rfl
  | @more w q rest qs hw _ ih =>
    rw [scanItems_item hw.units.2 (Or.inl rfl) (number_long hw), ih, strtof_number hw (by decide)]
    rfl

/-- What is loose is scanned. -/
theorem Loose.scan {s : List UInt8} (h : Loose s) : scanItems s ≠ none := by
  induction h with
  | rest hshort =>
    rw [scanItems_short hshort]
    exact Option.some_ne_none _
  | @segment w c s hw hc _ ih =>
    by_cases hshort : (w ++ c :: s).length ≤ 1
    · rw [scanItems_short hshort]
      exact Option.some_ne_none _
    · rw [scanItems_item hw hc hshort]
      simpa using ih

/-- And nothing else is. -/
theorem loose_of_scan : ∀ (n : Nat) {s : List UInt8}, s.length = n → scanItems s ≠ none → Loose s := by
  intro n
  induction n using Nat.strong_induction_on with
  | _ n ih =>
  intro s hn h
  by_cases hshort : s.length ≤ 1
  · exact Loose.rest hshort
  · rcases split_units s with hw | ⟨w, c, tail, rfl, hw, hc⟩
    · exact absurd (scanItems_run hw hshort) h
    · rw [scanItems_stop hw hc hshort] at h
      split at h
      · rename_i hdelim
        have hlt : tail.length < n := by
          rw [← hn, List.length_append, List.length_cons]
          omega
        exact Loose.segment hw hdelim (ih tail.length hlt rfl fun hnone => h (by rw [hnone]; rfl))
      · exact absurd rfl h

/-- A list of numbers has only characters that may be there. -/
theorem Items.valid {body : List UInt8} {qs : List ℚ} (h : Items body qs) :
    ∀ b ∈ body, isValidChar b = true := by
  have hunit : ∀ {w : List UInt8} {q : ℚ}, IsNumber w q → ∀ b ∈ w, isValidChar b = true := by
    intro w q hw b hb
    simp [isValidChar, hw.units.2 b hb]
  induction h with
  | last hw => exact List.forall_mem_append.mpr ⟨hunit hw, List.forall_mem_singleton.mpr (by decide)⟩
  | more hw _ ih => exact List.forall_mem_append.mpr ⟨hunit hw, List.forall_mem_cons.mpr ⟨by decide, ih⟩⟩

theorem Items.length_pos {body : List UInt8} {qs : List ℚ} (h : Items body qs) : 1 < body.length := by
  cases h with
  | last hw => exact Nat.lt_of_not_le (number_long hw)
  | more hw _ => exact Nat.lt_of_not_le (number_long hw)

/-! ## Where the code is right -/

/-- The string is long enough and has no stray character. -/
def Readable (data : List UInt8) : Prop := 2 < data.length ∧ ∀ c ∈ data, isValidChar c = true

/-- A literal of SQL can be read. -/
theorem VectorLiteral.readable {data : List UInt8} {values : List ℚ}
    (h : VectorLiteral (data.filter (· ≠ blank)) values) : Readable data := by
  obtain ⟨body, hs, hitems⟩ := h
  have hlen := List.length_filter_le (fun c => decide (c ≠ blank)) data
  have hlong := hitems.length_pos
  rw [hs, List.length_cons] at hlen
  refine ⟨by omega, fun c hc => ?_⟩
  by_cases hblank : c = blank
  · rw [hblank]
    decide
  · have hmem : c ∈ data.filter (· ≠ blank) := List.mem_filter.mpr ⟨hc, by simpa using hblank⟩
    rw [hs] at hmem
    rcases List.mem_cons.mp hmem with rfl | hbody
    · decide
    · exact hitems.valid c hbody

/-- What comes out of a readable string that is not blank. -/
theorem setFromStr_eq {data : List UInt8} (h : Readable data) {c : UInt8} {rest : List UInt8}
    (hs : data.filter (· ≠ blank) = c :: rest) : setFromStr data = withItems [] (scanItems rest) := by
  have hlen := List.length_filter_le (fun c => decide (c ≠ blank)) data
  rw [hs] at hlen
  rw [setFromStr, if_neg (by have := h.1; omega), withoutBlanks_eq, if_pos (List.all_eq_true.mpr h.2), hs]
  dsimp only
  exact @setLoop_at _ rest.length [c] rest [] rfl (List.cons_ne_nil _ _) hlen

theorem setFromStr_unreadable {data : List UInt8} (h : ¬ Readable data) :
    setFromStr data = .error .invalidArgument := by
  rw [setFromStr]
  by_cases hlen : data.length ≤ 2
  · exact if_pos hlen
  · have hnot : ¬ data.all isValidChar = true := fun hall => h ⟨by omega, List.all_eq_true.mp hall⟩
    rw [if_neg hlen, withoutBlanks_eq, if_neg hnot]

/-- Of a blank string the code reads what lies behind it. -/
theorem setFromStr_blank {data : List UInt8} (h : Readable data)
    (hs : data.filter (· ≠ blank) = []) : setFromStr data = .error .pastString := by
  have hlen := h.1
  have hend : unitEnd [] data.length 1 = .error .pastString := by
    rw [unitEnd, if_pos (by omega)]
    rfl
  rw [setFromStr, if_neg (by omega), withoutBlanks_eq, if_pos (List.all_eq_true.mpr h.2), hs]
  dsimp only
  rw [setLoop, if_pos (by decide)]
  split
  · rename_i e he
    rw [hend] at he
    rw [Except.error.inj he]
  · rename_i j hj
    rw [hend] at hj
    cases hj

/-- **Vector literals.**  The code is right about a string if and only if it is a literal as soon as it is
    loosely accepted. -/
theorem set_from_str_right_iff (data : List UInt8) : LiteralRight data ↔
    (LooselyAccepted data → ∃ values, VectorLiteral (data.filter (· ≠ blank)) values) := by
  by_cases hread : Readable data
  · cases hs : data.filter (· ≠ blank) with
    | nil =>
      -- only blanks
      refine iff_of_false (fun h => h.inside (setFromStr_blank hread hs)) fun h => ?_
      obtain ⟨values, body, heq, -⟩ := h ⟨hread.1, hread.2, by rw [hs]; exact Loose.rest (Nat.zero_le _)⟩
      cases heq
    | cons c rest =>
      have hcode := setFromStr_eq hread hs
      have hloose : LooselyAccepted data ↔ scanItems rest ≠ none := by
        unfold LooselyAccepted
        rw [hs, List.tail_cons]
        exact ⟨fun h => h.2.2.scan, fun h => ⟨hread.1, hread.2, loose_of_scan _ rfl h⟩⟩
      rw [hloose]
      constructor
      · intro h hscan
        obtain ⟨vs, hvs⟩ := Option.ne_none_iff_exists'.mp hscan
        rw [hvs] at hcode
        have hliteral := (h.accepts vs).mp hcode
        rw [hs] at hliteral
        exact ⟨vs, hliteral⟩
      · intro h
        refine ⟨fun values => ?_, fun hpast => ?_⟩
        · rw [hs]
          constructor
          · intro hok
            have hscan : scanItems rest ≠ none := by
              intro hnone
              rw [hcode, hnone] at hok
              cases hok
            obtain ⟨vs, body, heq, hitems⟩ := h hscan
            obtain ⟨rfl, rfl⟩ := List.cons.inj heq
            rw [hcode, hitems.scan] at hok
            rw [← Except.ok.inj hok]
            exact ⟨rest, rfl, hitems⟩
          · rintro ⟨body, heq, hitems⟩
            obtain ⟨rfl, rfl⟩ := List.cons.inj heq
            rw [hcode, hitems.scan]
            rfl
        · rw [hcode] at hpast
          cases hscan : scanItems rest with
          | none =>
            rw [hscan] at hpast
            cases hpast
          | some vs =>
            rw [hscan] at hpast
            cases hpast
  · have hcode := setFromStr_unreadable hread
    refine iff_of_true ⟨fun values => ?_, fun hpast => ?_⟩ fun h => absurd ⟨h.1, h.2.1⟩ hread
    · rw [hcode]
      exact iff_of_false nofun fun hliteral => hread hliteral.readable
    · rw [hcode] at hpast
      cases hpast

/-- `[1,2` is accepted as the vector of 1. -/
theorem set_from_str_open : ¬ ∀ data : List UInt8, LiteralRight data := by
  intro h
  have hread : Readable [opening, 49, comma, 50] := ⟨by decide, List.all_eq_true.mp rfl⟩
  have hdigit : isVectorUnitChar 49 = true := by decide
  have hcode := setFromStr_eq hread (show _ = opening :: [49, comma, 50] by decide)
  rw [show [(49 : UInt8), comma, 50] = [49] ++ comma :: [50] from rfl,
    scanItems_item (List.forall_mem_singleton.mpr hdigit) (Or.inl rfl) (by decide), scanItems_short (by decide)] at hcode
  obtain ⟨body, heq, hitems⟩ := ((h _).accepts _).mp hcode
  have hbody : body = [49, comma, 50] := (List.cons.inj heq).2.symm
  -- a literal ends with its bracket
  have hlast : ∀ {body : List UInt8} {qs : List ℚ}, Items body qs → body.getLast? = some closing := by
    intro body qs hitems
    induction hitems with
    | last hw => exact List.getLast?_concat
    | @more w q rest qs hw _ ih =>
      rw [List.getLast?_append, List.getLast?_cons, ih]
      rfl
  have hclosing := hlast hitems
  rw [hbody] at hclosing
  exact absurd hclosing (by decide)

end Miniob.Expr.VectorText
