/-
  DATE values from text and back (`CharType::cast_to`, `Value::set_date`, and `check_data`, `to_string`
  and `compare` of `DateType`).

  1. `checkData_iff`: `check_data` accepts the days of the calendar (`CalendarDay`) and nothing else.
  2. `scanDate_dateText`: what `to_string` prints for the number of a calendar day is scanned as that day.
  3. `order_of_days`: the numbers of two calendar days are ordered as the days are.
  4. `%d` scans numbers of any length into an `int`, and nothing bounds the year before
     `y * 10000 + m * 100 + d` is computed.  So the three of them hold for a string if and only if its
     numbers are small (`SmallDate`); `dates_right_iff` puts this together.
-/
import Miniob.Expr.Cast

namespace Miniob.Expr.Dates

open Miniob.Common Miniob.Index Miniob.Expr.Cast

/-! ## The calendar -/

/-- A leap year. -/
def Leap (y : Int) : Prop := 4 ∣ y ∧ (100 ∣ y → 400 ∣ y)

instance (y : Int) : Decidable (Leap y) := inferInstanceAs (Decidable (_ ∧ _))

/-- The number of days of a month. -/
def daysIn (y m : Int) : Int :=
  if m = 2 then (if Leap y then 29 else 28)
  else if m = 4 ∨ m = 6 ∨ m = 9 ∨ m = 11 then 30
  else 31

/-- A day of the calendar, from the year 1 on. -/
structure CalendarDay (y m d : Int) : Prop where
  year_pos : 1 ≤ y
  month_pos : 1 ≤ m
  month_le : m ≤ 12
  day_pos : 1 ≤ d
  day_le : d ≤ daysIn y m

/-- The day comes before the other one. -/
def Before (y m d y' m' d' : Int) : Prop := y < y' ∨ y = y' ∧ (m < m' ∨ m = m' ∧ d < d')

theorem CalendarDay.day_le_31 {y m d : Int} (h : CalendarDay y m d) : d ≤ 31 := by
  have hle := h.day_le
  unfold daysIn at hle
  split at hle
  · split at hle <;> omega
  · split at hle <;> omega

theorem leap_iff {y : Int} (hy : 0 < y) :
    (y.tmod 400 = 0 ∨ (y.tmod 100 ≠ 0 ∧ y.tmod 4 = 0)) ↔ Leap y := by
  rw [Int.tmod_eq_emod_of_nonneg (by omega), Int.tmod_eq_emod_of_nonneg (by omega),
    Int.tmod_eq_emod_of_nonneg (by omega), Leap]
  omega

/-- The table of `check_data`, with the leap day. -/
theorem daysIn_eq {y m : Int} (hm₀ : 0 < m) (hm₁ : m ≤ 12) : daysIn y m =
    (if m = 2 ∧ Leap y then 1 else 0)
      + ([0, 31, 28, 31, 30, 31, 30, 31, 31, 30, 31, 30, 31] : List Int).getD m.toNat 0 := by
  have hmon : ([0, 31, 28, 31, 30, 31, 30, 31, 31, 30, 31, 30, 31] : List Int).getD m.toNat 0
      = if m = 2 then 28 else if m = 4 ∨ m = 6 ∨ m = 9 ∨ m = 11 then 30 else 31 := by
    obtain ⟨k, rfl⟩ := Int.eq_ofNat_of_zero_le (Int.le_of_lt hm₀)
    have hall : ∀ k : Fin 13, 0 < (k : Int) →
        ([0, 31, 28, 31, 30, 31, 30, 31, 31, 30, 31, 30, 31] : List Int).getD (k : Int).toNat 0
          = if (k : Int) = 2 then 28
            else if (k : Int) = 4 ∨ (k : Int) = 6 ∨ (k : Int) = 9 ∨ (k : Int) = 11 then 30 else 31 := by
      decide
    exact hall ⟨k, by omega⟩ hm₀
  rw [hmon, daysIn]
  by_cases hm : m = 2
  · by_cases hleap : Leap y
    · rw [if_pos hm, if_pos hleap, if_pos ⟨hm, hleap⟩, if_pos hm]
      rfl
    · rw [if_pos hm, if_neg hleap, if_neg fun h => hleap h.2, if_pos hm]
      rfl
  · have hnot : ¬ (m = 2 ∧ Leap y) := fun h => hm h.1
    rw [if_neg hm, if_neg hm, if_neg hnot, Int.zero_add]

/-- **`check_data` is the calendar.** -/
theorem checkData_iff {y m d : Int} : checkData y m d = true ↔ CalendarDay y m d := by
  unfold checkData
  rw [decide_eq_true_eq]
  constructor
  · rintro ⟨hy, hm₀, hm₁, hd, hle⟩
    simp only [leap_iff hy] at hle
    rw [← daysIn_eq hm₀ hm₁] at hle
    exact ⟨by omega, by omega, hm₁, by omega, hle⟩
  · rintro ⟨hy, hm₀, hm₁, hd, hle⟩
    rw [daysIn_eq (by omega) hm₁] at hle
    simp only [leap_iff (show 0 < y by omega)]
    exact ⟨by omega, by omega, hm₁, by omega, hle⟩

example : checkData 1900 2 29 = false ∧ checkData 2000 2 29 = true := by decide

/-! ## The numbers -/

/-- The year, the month and the day are the digits of the number. -/
theorem CalendarDay.parts {y m d : Int} (h : CalendarDay y m d) :
    (dateNumber y m d).tdiv 10000 = y ∧ ((dateNumber y m d).tmod 10000).tdiv 100 = m ∧
      (dateNumber y m d).tmod 100 = d := by
  have hd₁ := h.day_le_31
  obtain ⟨hy, hm₀, hm₁, hd₀, -⟩ := h
  have hpos : 0 ≤ dateNumber y m d := by
    unfold dateNumber
    omega
  rw [Int.tdiv_eq_ediv_of_nonneg hpos, Int.tmod_eq_emod_of_nonneg hpos, Int.tmod_eq_emod_of_nonneg hpos,
    Int.tdiv_eq_ediv_of_nonneg (Int.emod_nonneg _ (by decide))]
  unfold dateNumber
  omega

/-- Numbers are ordered as the days. -/
theorem order_of_days {y m d y' m' d' : Int} (h : CalendarDay y m d) (h' : CalendarDay y' m' d') :
    dateNumber y m d < dateNumber y' m' d' ↔ Before y m d y' m' d' := by
  have hd₁ := h.day_le_31
  have hd₁' := h'.day_le_31
  obtain ⟨hy, hm₀, hm₁, hd₀, -⟩ := h
  obtain ⟨hy', hm₀', hm₁', hd₀', -⟩ := h'
  unfold dateNumber Before
  omega

/-- Two days of the calendar have two numbers. -/
theorem dateNumber_inj {y m d y' m' d' : Int} (h : CalendarDay y m d) (h' : CalendarDay y' m' d') :
    dateNumber y m d = dateNumber y' m' d' ↔ y = y' ∧ m = m' ∧ d = d' := by
  have hd₁ := h.day_le_31
  have hd₁' := h'.day_le_31
  obtain ⟨hy, hm₀, hm₁, hd₀, -⟩ := h
  obtain ⟨hy', hm₀', hm₁', hd₀', -⟩ := h'
  unfold dateNumber
  omega

/-! ## Text -/

/-- The byte of a digit. -/
def digitByte (d : Nat) : UInt8 := UInt8.ofNat (48 + d)

theorem digitByte_spec {d : Nat} (h : d < 10) :
    (48 ≤ digitByte d ∧ digitByte d ≤ 57) ∧ (digitByte d).toNat - 48 = d := by
  have hall : ∀ k : Fin 10, (48 ≤ digitByte k ∧ digitByte k ≤ 57) ∧ (digitByte k).toNat - 48 = k := by
    decide
  exact hall ⟨d, h⟩

/-- No digit follows. -/
def Ends (rest : List UInt8) : Prop := ∀ b ∈ rest.head?, ¬ (48 ≤ b ∧ b ≤ 57)

/-- Digits are read up to the first other character. -/
theorem scanDigits_digits {ds : List Nat} (hds : ∀ d ∈ ds, d < 10) {rest : List UInt8}
    (hrest : Ends rest) : ∀ n : Nat,
    scanDigits n (ds.map digitByte ++ rest) = (ds.foldl (fun n d => 10 * n + d) n, rest) := by
  induction ds with
  | nil =>
    intro n
    cases rest with
    | nil => rfl
    | cons b rest =>
      rw [List.map_nil, List.nil_append, scanDigits, if_neg (hrest b (by simp))]
      rfl
  | cons d ds ih =>
    intro n
    obtain ⟨hdigit, hval⟩ := digitByte_spec (hds d List.mem_cons_self)
    rw [List.map_cons, List.cons_append, scanDigits, if_pos hdigit, hval,
      ih fun d' hd' => hds d' (List.mem_cons_of_mem d hd')]
    rfl

/-- The digits of a number, and zeros in front of them. -/
theorem padText_digits (width n : Nat) : ∃ ds : List Nat, padText width (natText n) = ds.map digitByte ∧
    ds ≠ [] ∧ (∀ d ∈ ds, d < 10) ∧ ds.foldl (fun n d => 10 * n + d) 0 = n := by
  -- zeros in front change nothing
  have hzeros : ∀ k : Nat, (List.replicate k 0).foldl (fun n d => 10 * n + d) 0 = 0 := by
    intro k
    induction k with
    | zero => rfl
    | succ k ih => rwa [List.replicate_succ, List.foldl_cons]
  have hdigits : ∃ ds : List Nat, natText n = ds.map digitByte ∧ ds ≠ [] ∧ (∀ d ∈ ds, d < 10) ∧
      ds.foldl (fun n d => 10 * n + d) 0 = n := by
    by_cases hn : n = 0
    · refine ⟨[0], ?_, List.cons_ne_nil _ _, fun d hd => ?_, hn.symm⟩
      · rw [natText, if_pos hn]
        rfl
      · rw [List.mem_singleton.mp hd]
        decide
    · refine ⟨(Nat.digits 10 n).reverse, ?_, ?_, fun d hd => ?_, ?_⟩
      · rw [natText, if_neg hn]
        rfl
      · rw [ne_eq, List.reverse_eq_nil_iff]
        exact Nat.digits_ne_nil_iff_ne_zero.mpr hn
      · exact Nat.digits_lt_base (by decide) (List.mem_reverse.mp hd)
      · have hof := Nat.ofDigits_digits 10 n
        rw [Nat.ofDigits_eq_foldr] at hof
        rw [List.foldl_reverse]
        simpa only [Nat.cast_id, Nat.add_comm] using hof
  obtain ⟨ds, htext, hne, hlt, hval⟩ := hdigits
  refine ⟨List.replicate (width - (natText n).length) 0 ++ ds, ?_, ?_, fun d hd => ?_, ?_⟩
  · rw [List.map_append, List.map_replicate, ← htext]
    rfl
  · exact List.append_ne_nil_of_right_ne_nil _ hne
  · rcases List.mem_append.mp hd with hd | hd
    · rw [List.eq_of_mem_replicate hd]
      decide
    · exact hlt d hd
  · rw [List.foldl_append, hzeros, hval]

/-- A number that has been printed is scanned. -/
theorem scanInt_padText (width n : Nat) {rest : List UInt8} (hrest : Ends rest) :
    scanInt (padText width (natText n) ++ rest) = some ((n : Int), rest) := by
  obtain ⟨ds, htext, hne, hlt, hval⟩ := padText_digits width n
  obtain ⟨d, ds, rfl⟩ := List.exists_cons_of_ne_nil hne
  have hd := hlt d List.mem_cons_self
  obtain ⟨hdigit, -⟩ := digitByte_spec hd
  have hscan := scanDigits_digits hlt hrest 0
  rw [hval] at hscan
  -- a digit is no white space and no sign
  have hplain : digitByte d ≠ 45 ∧ digitByte d ≠ 43 ∧
      ¬ (digitByte d = 32 ∨ (9 ≤ digitByte d ∧ digitByte d ≤ 13)) := by
    have hall : ∀ k : Fin 10, digitByte k ≠ 45 ∧ digitByte k ≠ 43 ∧
        ¬ (digitByte k = 32 ∨ (9 ≤ digitByte k ∧ digitByte k ≤ 13)) := by decide
    exact hall ⟨d, hd⟩
  have hnat : scanNat ((d :: ds).map digitByte ++ rest) = some (n, rest) := by
    rw [List.map_cons, List.cons_append, scanNat, if_pos hdigit]
    exact congrArg some hscan
  have hdrop : ((d :: ds).map digitByte ++ rest).dropWhile
      (fun b => decide (b = 32 ∨ (9 ≤ b ∧ b ≤ 13))) = (d :: ds).map digitByte ++ rest := by
    rw [List.map_cons, List.cons_append, List.dropWhile_cons_of_neg (by simpa using hplain.2.2)]
  rw [htext, scanInt, hdrop]
  split
  · rename_i heq
    exact absurd (List.cons.inj heq).1 hplain.1
  · rename_i heq
    exact absurd (List.cons.inj heq).1 hplain.2.1
  · rw [hnat]
    rfl

theorem ends_dash (rest : List UInt8) : Ends (45 :: rest) := by
  intro b hb
  rw [← Option.mem_some.mp hb]
  decide

theorem intText_ofNat (n : Nat) : intText n = natText n := by
  rw [intText, if_neg (by omega), Int.natAbs_natCast]

/-- **What is printed is scanned again.** -/
theorem scanDate_dateText {y m d : Int} (h : CalendarDay y m d) {date : Int32}
    (hdate : date.toInt = dateNumber y m d) : scanDate (dateText date) = some ((y, m, d), []) := by
  obtain ⟨hyear, hmonth, hday⟩ := h.parts
  obtain ⟨y, rfl⟩ := Int.eq_ofNat_of_zero_le (show 0 ≤ y by have := h.year_pos; omega)
  obtain ⟨m, rfl⟩ := Int.eq_ofNat_of_zero_le (show 0 ≤ m by have := h.month_pos; omega)
  obtain ⟨d, rfl⟩ := Int.eq_ofNat_of_zero_le (show 0 ≤ d by have := h.day_pos; omega)
  have hlast := @scanInt_padText 2 d [] nofun
  rw [List.append_nil] at hlast
  rw [dateText, hdate, hyear, hmonth, hday, intText_ofNat, intText_ofNat, intText_ofNat]
  simp only [List.append_assoc, List.cons_append, scanDate, scanInt_padText _ _ (ends_dash _),
    Option.bind_eq_bind, Option.bind_some, scanByte, if_true, hlast]
  rfl

/-! ## Strings as dates -/

/-- What `sscanf` sees of a string: it ends at the first NUL. -/
def scanned (s : List UInt8) : Option ((Int × Int × Int) × List UInt8) :=
  scanDate (setString s s.length)

/-- `DateType::to_string`. -/
def toText (date : Int32) : List UInt8 :=
  if date = dateNull then [110, 117, 108, 108] else dateText date

/-- The string is a date, which is stored as `date`. -/
def Accepted (u : Unspecified) (s : List UInt8) (date : Int32) : Prop :=
  (Cast.Value.chars s).isNull = false ∧ CharType.castTo u s .dates = .ok (.dates date)

/-- An accepted string is a day of the calendar, whose number is stored and printed. -/
def DayKept (u : Unspecified) (s : List UInt8) : Prop :=
  ∀ date, Accepted u s date → ∃ y m d rest, scanned s = some ((y, m, d), rest) ∧ CalendarDay y m d ∧
    date.toInt = dateNumber y m d ∧ scanDate (toText date) = some ((y, m, d), [])

/-- Two accepted strings are compared as their days. -/
def OrderKept (u : Unspecified) (s s' : List UInt8) : Prop :=
  ∀ date date' y m d rest y' m' d' rest', Accepted u s date → Accepted u s' date' →
    scanned s = some ((y, m, d), rest) → scanned s' = some ((y', m', d'), rest') →
    (DateType.compare date date' < 0 ↔ Before y m d y' m' d') ∧
      (DateType.compare date date' = 0 ↔ y = y' ∧ m = m' ∧ d = d')

/-- The three numbers fit into an `int`, and the year is one whose dates do. -/
def SmallDate (s : List UInt8) : Prop :=
  ∀ y m d rest, scanned s = some ((y, m, d), rest) → Fits y ∧ Fits m ∧ Fits d ∧ y ≤ 214748

/-- A text is accepted if its three numbers, narrowed to `int`, pass the check. -/
theorem accepted_iff {u : Unspecified} {s : List UInt8} {date : Int32} : Accepted u s date ↔
    (Cast.Value.chars s).isNull = false ∧ ∃ y m d rest, scanned s = some ((y, m, d), rest) ∧
      checkData (u.narrow y).toInt (u.narrow m).toInt (u.narrow d).toInt = true ∧
      date = u.narrow (dateNumber (u.narrow y).toInt (u.narrow m).toInt (u.narrow d).toInt) := by
  refine and_congr_right fun hnull => ?_
  rw [CharType.castTo, hnull, if_neg Bool.false_ne_true, CharType.castToDate, scanned]
  constructor
  · intro h
    split at h
    · cases h
    · rename_i y m d rest hscan
      dsimp only at h
      split at h
      · rename_i hcheck
        exact ⟨y, m, d, rest, hscan, hcheck, (Cast.Value.dates.inj (Except.ok.inj h)).symm⟩
      · cases h
  · rintro ⟨y, m, d, rest, hscan, hcheck, rfl⟩
    rw [hscan]
    dsimp only
    rw [if_pos hcheck]

theorem CalendarDay.fits {y m d : Int} (h : CalendarDay y m d) (hy : y ≤ 214748) :
    dateNumber y m d < 2 ^ 31 := by
  have hd := h.day_le_31
  have hm := h.month_le
  unfold dateNumber
  omega

theorem ne_dateNull {y m d : Int} (h : CalendarDay y m d) {date : Int32}
    (hdate : date.toInt = dateNumber y m d) : date ≠ dateNull := by
  intro hnull
  have hpos := dateNumber_pos (checkData_iff.mpr h)
  rw [← hdate, hnull] at hpos
  exact absurd hpos (by decide)

/-- A small date is kept. -/
theorem dayKept_of_small {u : Unspecified} {s : List UInt8} (h : SmallDate s) : DayKept u s := by
  intro date hacc
  obtain ⟨-, y, m, d, rest, hscan, hcheck, rfl⟩ := accepted_iff.mp hacc
  obtain ⟨hy, hm, hd, hle⟩ := h y m d rest hscan
  rw [toInt_narrow u hy, toInt_narrow u hm, toInt_narrow u hd] at hcheck ⊢
  have hday := checkData_iff.mp hcheck
  have hnumber := toInt_narrow u (fits_of_checkData hcheck (hday.fits hle)).2.2.2
  refine ⟨y, m, d, rest, hscan, hday, hnumber, ?_⟩
  rw [toText, if_neg (ne_dateNull hday hnumber)]
  exact scanDate_dateText hday hnumber

/-- A date that is kept is small. -/
theorem small_of_dayKept {u : Unspecified} {s : List UInt8} (h : DayKept u s) {date : Int32}
    (hacc : Accepted u s date) : SmallDate s := by
  obtain ⟨y, m, d, rest, hscan, hday, hnumber, -⟩ := h date hacc
  intro y' m' d' rest' hscan'
  rw [hscan] at hscan'
  obtain ⟨⟨rfl, rfl, rfl⟩, rfl⟩ : (y = y' ∧ m = m' ∧ d = d') ∧ rest = rest' := by
    simpa using hscan'
  have hlt : dateNumber y m d < 2 ^ 31 := hnumber ▸ date.toInt_lt
  obtain ⟨hy, hm, hd, -⟩ := fits_of_checkData (checkData_iff.mpr hday) hlt
  refine ⟨hy, hm, hd, ?_⟩
  have := hday.month_pos
  have := hday.day_pos
  unfold dateNumber at hlt
  omega

/-- Dates that are kept are kept in order. -/
theorem orderKept_of_dayKept {u : Unspecified} {s s' : List UInt8} (h : DayKept u s)
    (h' : DayKept u s') : OrderKept u s s' := by
  intro date date' y m d rest y' m' d' rest' hacc hacc' hscan hscan'
  obtain ⟨y₁, m₁, d₁, rest₁, hscan₁, hday, hnumber, -⟩ := h date hacc
  obtain ⟨y₂, m₂, d₂, rest₂, hscan₂, hday', hnumber', -⟩ := h' date' hacc'
  rw [hscan] at hscan₁
  rw [hscan'] at hscan₂
  obtain ⟨⟨rfl, rfl, rfl⟩, -⟩ : (y = y₁ ∧ m = m₁ ∧ d = d₁) ∧ rest = rest₁ := by simpa using hscan₁
  obtain ⟨⟨rfl, rfl, rfl⟩, -⟩ : (y' = y₂ ∧ m' = m₂ ∧ d' = d₂) ∧ rest' = rest₂ := by simpa using hscan₂
  have hcompare : DateType.compare date date' = linearCmp (dateNumber y m d) (dateNumber y' m' d') := by
    rw [DateType.compare, absentFirst, decide_eq_false (ne_dateNull hday hnumber),
      decide_eq_false (ne_dateNull hday' hnumber'), compareInt_eq, hnumber, hnumber']
    rfl
  rw [hcompare]
  refine ⟨linearCmp_neg.trans (order_of_days hday hday'), ?_⟩
  rw [← dateNumber_inj hday hday']
  constructor
  · intro hzero
    exact le_antisymm (linearCmp_nonpos.mp (by omega))
      (not_lt.mp fun hlt => absurd (linearCmp_neg.mpr hlt) (by omega))
  · intro heq
    rw [heq]
    simp [linearCmp]

/-- **DATE values.**  Two strings keep their days, and their order, if and only if each of them that is
    accepted is a small date. -/
theorem dates_right_iff (u : Unspecified) (s s' : List UInt8) :
    (DayKept u s ∧ DayKept u s' ∧ OrderKept u s s') ↔
      ((∃ date, Accepted u s date) → SmallDate s) ∧ ((∃ date, Accepted u s' date) → SmallDate s') := by
  have hkept : ∀ s, DayKept u s ↔ ((∃ date, Accepted u s date) → SmallDate s) := by
    intro s
    constructor
    · rintro h ⟨date, hacc⟩
      exact small_of_dayKept h hacc
    · intro h date hacc
      exact dayKept_of_small (h ⟨date, hacc⟩) date hacc
  rw [← hkept s, ← hkept s']
  constructor
  · rintro ⟨h, h', -⟩
    exact ⟨h, h'⟩
  · rintro ⟨h, h'⟩
    exact ⟨h, h', orderKept_of_dayKept h h'⟩

/-- `300000-1-1`. -/
def farFuture : List UInt8 := [51, 48, 48, 48, 48, 48, 45, 49, 45, 49]

/-- No 32-bit number is that of a day of the year 300000. -/
theorem not_dayKept_farFuture (u : Unspecified) : ¬ DayKept u farFuture := by
  intro hkept
  have hscan : scanned farFuture = some ((300000, 1, 1), []) := by decide
  have hfits : Fits 300000 ∧ Fits 1 := by decide
  have hacc : Accepted u farFuture (u.narrow (dateNumber 300000 1 1)) := by
    refine accepted_iff.mpr ⟨by decide, 300000, 1, 1, [], hscan, ?_, ?_⟩
    · rw [toInt_narrow u hfits.1, toInt_narrow u hfits.2]
      decide
    · rw [toInt_narrow u hfits.1, toInt_narrow u hfits.2]
  have hsmall := (small_of_dayKept hkept hacc 300000 1 1 [] hscan).2.2.2
  omega

/-- A machine on which numbers wrap takes the year 300000 for another one. -/
theorem year_overflows : ¬ ∀ (u : Unspecified) (s s' : List UInt8), DayKept u s ∧ DayKept u s' ∧ OrderKept u s s' := by
  intro h
  exact not_dayKept_farFuture _ (h ⟨fun _ => 0, Int32.ofInt, fun _ _ => 0, fun _ => 0⟩ farFuture []).1

end Miniob.Expr.Dates
