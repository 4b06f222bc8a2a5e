import BuildMatrix.Timestamp
import Mathlib.Algebra.Group.Nat.Defs
import Mathlib.Data.List.Basic

/-!
# Times are read back

A point in time is written as a date and a time of day, and read back as the same point in time, as
long as its year is one that can be read at all. The date of a day is the reverse of the number of
days up to a date: in a cycle of 400 years, the year is found first, by correcting for the leap days
before it, and then the month, by the rule that from March on five months have 153 days.
-/

namespace BuildMatrix.Timestamp

variable {year : Int} {width n : Nat} {c : Char} {time : Timestamp}

/-! ### The calendar -/

/-- The **year in a cycle** of 400 that a day of it lies in, and the day of that year. The last day
of a year of 366 days is the one before March of a leap year. -/
theorem year_of_day {day dayOfYear : Int} (hday : 0 ≤ day) (hday' : day < 146097)
    (hyear : year = (day - day / 1460 + day / 36524 - day / 146096) / 365)
    (hdayOfYear : dayOfYear = day - (365 * year + year / 4 - year / 100)) :
    0 ≤ year ∧ year < 400 ∧ 0 ≤ dayOfYear ∧ dayOfYear ≤ 365 ∧
      (dayOfYear = 365 → (year + 1) % 4 = 0 ∧ ((year + 1) % 100 ≠ 0 ∨ (year + 1) % 400 = 0)) := by
  by_cases hlast : day = 146096
  · obtain rfl : year = 399 := by omega
    omega
  -- within a century the corrections are constant
  have hcycle : day / 146096 = 0 := by omega
  have hcentury : day / 36524 = 0 ∨ day / 36524 = 1 ∨ day / 36524 = 2 ∨ day / 36524 = 3 := by omega
  rw [hcycle] at hyear
  have hsame : year / 100 = day / 36524 := by
    rcases hcentury with hc | hc | hc | hc <;> rw [hc] at hyear ⊢ <;> omega
  have hfour : year % 4 = 3 ∨ year % 4 ≤ 2 := by omega
  rw [hsame] at hdayOfYear
  rcases hcentury with hc | hc | hc | hc <;> rw [hc] at hyear hdayOfYear <;>
    rcases hfour with hf | hf <;> omega

/-- **The parts of a date**: the cycle of 400 years, the year in it from March on, and the month and
the day that the day of that year falls on. -/
theorem exists_dateOf (days : Int) : ∃ era year dayOfYear month : Int,
    days = era * 146097 + (year * 365 + year / 4 - year / 100 + dayOfYear) - 719468 ∧
    0 ≤ year ∧ year < 400 ∧ 0 ≤ dayOfYear ∧ dayOfYear ≤ 365 ∧
    (dayOfYear = 365 → (year + 1) % 4 = 0 ∧ ((year + 1) % 100 ≠ 0 ∨ (year + 1) % 400 = 0)) ∧
    month = (5 * dayOfYear + 2) / 153 ∧
    dateOf days =
      (if month < 10 then year + era * 400 else year + era * 400 + 1,
        (if month < 10 then month + 3 else month - 9).toNat,
        (dayOfYear - (153 * month + 2) / 5 + 1).toNat) := by
  rw [dateOf]
  generalize hday : (days + 719468) % 146097 = day
  generalize hyear : (day - day / 1460 + day / 36524 - day / 146096) / 365 = year
  generalize hdayOfYear : day - (365 * year + year / 4 - year / 100) = dayOfYear
  generalize hmonth : (5 * dayOfYear + 2) / 153 = month
  obtain ⟨h, h', hlow, hhigh, hleap⟩ := year_of_day (by omega) (by omega) hyear.symm hdayOfYear.symm
  refine ⟨(days + 719468) / 146097, year, dayOfYear, month, by omega, h, h', hlow, hhigh, hleap,
    hmonth.symm, ?_⟩
  -- January and February belong to the year that started in March before them
  by_cases hlate : month < 10
  · simp only [if_pos hlate]
    rw [if_neg (by omega)]
  · simp only [if_neg hlate]
    rw [if_pos (by omega)]

theorem daysOf_dateOf (days : Int) :
    daysOf (dateOf days).1 (dateOf days).2.1 (dateOf days).2.2 = days := by
  obtain ⟨era, year, dayOfYear, month, hdays, hyear, hyear', hlow, hhigh, -, hmonth, hdate⟩ :=
    exists_dateOf days
  have hera : (year + era * 400) / 400 = era := by omega
  have hyearOfEra : (year + era * 400) % 400 = year := by omega
  have hday : ((dayOfYear - (153 * month + 2) / 5 + 1).toNat : Int) =
      dayOfYear - (153 * month + 2) / 5 + 1 := by omega
  rw [hdate]
  by_cases hlate : month < 10
  · have hnumber : ((month + 3).toNat : Int) - 3 = month := by omega
    have hnot : ¬(month + 3).toNat ≤ 2 := by omega
    simp only [daysOf, if_pos hlate, if_neg hnot, hera, hyearOfEra, hnumber, hday]
    omega
  · have hnumber : ((month - 9).toNat : Int) + 9 = month := by omega
    have hle : (month - 9).toNat ≤ 2 := by omega
    simp only [daysOf, if_neg hlate, if_pos hle, Int.add_sub_cancel, hera, hyearOfEra, hnumber,
      hday]
    omega

theorem daysInMonth_eq (year : Int) (month : Nat) :
    daysInMonth year month =
      if month = 2 then (if isLeap year then 29 else 28)
      else if month = 4 ∨ month = 6 ∨ month = 9 ∨ month = 11 then 30 else 31 := by
  fun_cases daysInMonth year month <;> simp_all

/-- The date of a day is **a date of the calendar**. -/
theorem dateOf_valid (days : Int) :
    1 ≤ (dateOf days).2.1 ∧ (dateOf days).2.1 ≤ 12 ∧ 1 ≤ (dateOf days).2.2 ∧
      (dateOf days).2.2 ≤ daysInMonth (dateOf days).1 (dateOf days).2.1 := by
  obtain ⟨era, year, dayOfYear, month, -, -, -, hlow, hhigh, hleap, hmonth, hdate⟩ :=
    exists_dateOf days
  have hmonths : month = 0 ∨ month = 1 ∨ month = 2 ∨ month = 3 ∨ month = 4 ∨ month = 5 ∨
      month = 6 ∨ month = 7 ∨ month = 8 ∨ month = 9 ∨ month = 10 ∨ month = 11 := by omega
  have hfebruary : dayOfYear = 365 → isLeap (year + era * 400 + 1) = true := by
    intro hlast
    obtain ⟨hfour, hhundred⟩ := hleap hlast
    simp only [isLeap, Bool.or_eq_true, Bool.and_eq_true, beq_iff_eq, bne_iff_ne]
    omega
  rw [hdate, daysInMonth_eq]
  dsimp only
  refine ⟨by split <;> omega, by split <;> omega, by omega, ?_⟩
  rcases hmonths with rfl | rfl | rfl | rfl | rfl | rfl | rfl | rfl | rfl | rfl | rfl | rfl
  case inr.inr.inr.inr.inr.inr.inr.inr.inr.inr.inr =>
    -- a day past the 28th of February is the last day of a leap year
    by_cases hlast : dayOfYear = 365
    · simp [hfebruary hlast, hlast]
    · simp
      split <;> omega
  all_goals simp; omega

/-! ### Digits -/

theorem digitsValue_eq (digits : List Char) :
    digitsValue digits = Nat.ofDigitChars 10 digits 0 := by
  rw [digitsValue, Nat.ofDigitChars_eq_foldl]
  simp only [Nat.mul_comm]

theorem toList_padded (width n : Nat) :
    (padded width n).toList =
      List.replicate (width - (Nat.toDigits 10 n).length) '0' ++ Nat.toDigits 10 n := by
  rw [padded, String.toList_ofList]

theorem digitsValue_padded (width n : Nat) : digitsValue (padded width n).toList = n := by
  rw [digitsValue_eq, toList_padded, Nat.ofDigitChars_append, Nat.ofDigitChars_replicate_zero,
    Nat.mul_zero, Nat.ofDigitChars_ten_toDigits]

theorem isDigit_of_mem_padded (hc : c ∈ (padded width n).toList) : c.isDigit = true := by
  rw [toList_padded, List.mem_append] at hc
  rcases hc with hzero | hdigit
  · rw [List.eq_of_mem_replicate hzero]
    decide
  · exact Nat.isDigit_of_mem_toDigits (by decide) (by decide) hdigit

theorem padded_ne_nil (width n : Nat) : (padded width n).toList ≠ [] := by
  rw [toList_padded]
  exact List.append_ne_nil_of_right_ne_nil _ Nat.toDigits_ne_nil

theorem length_padded (hwidth : 0 < width) (h : n < 10 ^ width) :
    (padded width n).toList.length = width := by
  have hlength := (Nat.length_toDigits_le_iff (b := 10) (by decide) hwidth).mpr h
  rw [toList_padded, List.length_append, List.length_replicate]
  omega

theorem digits?_append {digits rest : List Char} (hne : digits ≠ [])
    (hdigits : ∀ c ∈ digits, c.isDigit = true) (hend : digits.length = width ∨
      digits.length ≤ width ∧ ∀ c ∈ rest.head?, c.isDigit = false) :
    digits? width (digits ++ rest) = some (digits, rest) := by
  have hle : digits.length ≤ width := by omega
  have htake : ((digits ++ rest).take width).takeWhile Char.isDigit = digits := by
    rw [List.take_append, List.take_of_length_le hle, List.takeWhile_append_of_pos hdigits]
    rcases hend with hwidth | ⟨-, hrest⟩
    · rw [hwidth, Nat.sub_self, List.take_zero, List.takeWhile_nil, List.append_nil]
    · cases rest with
      | nil => simp
      | cons c rest =>
        have hc : c.isDigit = false := hrest c rfl
        cases width - digits.length with
        | zero => simp
        | succ k => simp [hc]
  rw [digits?, htake]
  cases digits with
  | nil => exact absurd rfl hne
  | cons c digits => simp

theorem isBlank_of_isDigit (h : c.isDigit = true) : Text.isBlank c = false := by
  simp only [Char.isDigit, Bool.and_eq_true, decide_eq_true_eq] at h
  have hlow : 48 ≤ c.toNat := h.1
  have hhigh : c.toNat ≤ 57 := h.2
  simp only [Text.isBlank, Bool.or_eq_false_iff, Bool.and_eq_false_iff, decide_eq_false_iff_not]
  omega

theorem skipBlanks_cons (h : Text.isBlank c = false) (rest : List Char) :
    Text.skipBlanks (c :: rest) = c :: rest := by
  rw [Text.skipBlanks, List.dropWhile_cons_of_neg (by simp [h])]

theorem exists_padded_eq (width n : Nat) :
    ∃ c digits, (padded width n).toList = c :: digits ∧ c.isDigit = true := by
  cases hpadded : (padded width n).toList with
  | nil => exact absurd hpadded (padded_ne_nil width n)
  | cons c digits => exact ⟨c, digits, rfl, isDigit_of_mem_padded (hpadded ▸ List.mem_cons_self)⟩

theorem skipBlanks_padded (width n : Nat) (rest : List Char) :
    Text.skipBlanks ((padded width n).toList ++ rest) = (padded width n).toList ++ rest := by
  obtain ⟨c, digits, hpadded, hdigit⟩ := exists_padded_eq width n
  rw [hpadded, List.cons_append, skipBlanks_cons (isBlank_of_isDigit hdigit)]

theorem number?_padded (h : n < 100) (rest : List Char) :
    number? 2 ((padded 2 n).toList ++ rest) = some (n, rest) := by
  rw [number?, skipBlanks_padded,
    digits?_append (padded_ne_nil 2 n) (fun _ => isDigit_of_mem_padded)
      (.inl (length_padded (by decide) h))]
  simp only [Option.map_some, digitsValue_padded]

theorem year?_padded (h : n < 10000) (rest : List Char) :
    year? ((padded 4 n).toList ++ rest) = some ((n : Int), rest) := by
  obtain ⟨c, digits, hpadded, hdigit⟩ := exists_padded_eq 4 n
  rw [year?, skipBlanks_padded]
  split
  · next heq =>
      rw [hpadded] at heq
      obtain ⟨rfl, -⟩ := List.cons.inj heq
      cases hdigit
  · next heq =>
      rw [hpadded] at heq
      obtain ⟨rfl, -⟩ := List.cons.inj heq
      cases hdigit
  · rw [digits?_append (padded_ne_nil 4 n) (fun _ => isDigit_of_mem_padded)
      (.inl (length_padded (by decide) h))]
    simp only [Option.map_some, digitsValue_padded]

/-- A year is **read back**, up to the hyphen after it. -/
theorem year?_yearText (year : Int) (rest : List Char) :
    year? ((yearText year).toList ++ '-' :: rest) = some (year, '-' :: rest) := by
  have hsigned : ∀ n : Nat, digits? ((padded 4 n).toList ++ '-' :: rest).length
      ((padded 4 n).toList ++ '-' :: rest) = some ((padded 4 n).toList, '-' :: rest) := fun n =>
    digits?_append (padded_ne_nil 4 n) (fun _ => isDigit_of_mem_padded) (.inr ⟨by simp, by simp⟩)
  rw [yearText]
  split
  · next hyear =>
      simp only [Bool.and_eq_true, decide_eq_true_eq] at hyear
      rw [year?_padded (by omega), Int.toNat_of_nonneg hyear.1]
  · next hyear =>
      rw [Bool.and_eq_true, decide_eq_true_eq, decide_eq_true_eq] at hyear
      split
      · have hvalue : -(year.natAbs : Int) = year := by omega
        have htext : "-".toList = ['-'] := rfl
        rw [String.toList_append, htext, List.singleton_append, List.cons_append, year?,
          skipBlanks_cons (by decide)]
        simp only [hsigned, Option.map_some, digitsValue_padded, hvalue]
      · have hvalue : (year.natAbs : Int) = year := by omega
        have htext : "+".toList = ['+'] := rfl
        rw [String.toList_append, htext, List.singleton_append, List.cons_append, year?,
          skipBlanks_cons (by decide)]
        simp only [hsigned, Option.map_some, digitsValue_padded, hvalue]

/-- A fraction of a second is **read back**, up to the mark after it. -/
theorem fraction?_fractionText {nanos : Nat} (h : nanos < 1000000000) :
    fraction? ((fractionText nanos).toList ++ ['Z']) = some (nanos, ['Z']) := by
  have hread : ∀ width n, width ≤ 9 → 0 < width → n < 10 ^ width →
      fraction? (("." ++ padded width n).toList ++ ['Z']) =
        some (n * Nat.pow 10 (9 - width), ['Z']) := by
    intro width n hwidth hpos hn
    have htext : ".".toList = ['.'] := rfl
    rw [String.toList_append, htext, List.singleton_append, List.cons_append, fraction?,
      digits?_append (padded_ne_nil width n) (fun _ => isDigit_of_mem_padded)
        (.inr ⟨by rw [length_padded hpos hn]; exact hwidth, by simp⟩)]
    simp only [Option.map_some, digitsValue_padded, length_padded hpos hn]
    rfl
  rw [fractionText]
  split
  · next hzero =>
      subst hzero
      rfl
  split
  · next hmillis =>
      have hvalue : nanos / 1000000 * 1000000 = nanos := by omega
      rw [hread 3 _ (by decide) (by decide) (by omega)]
      exact congrArg (fun n => some (n, ['Z'])) hvalue
  split
  · next hmicros =>
      have hvalue : nanos / 1000 * 1000 = nanos := by omega
      rw [hread 6 _ (by decide) (by decide) (by omega)]
      exact congrArg (fun n => some (n, ['Z'])) hvalue
  · rw [hread 9 _ (by decide) (by decide) h]
    exact congrArg (fun n => some (n, ['Z'])) (Nat.mul_one nanos)

/-! ### The whole text -/

/-- The **year** of a point in time can be read: it is one of those there are. -/
def InRange (time : Timestamp) : Prop :=
  -lastYear - 1 ≤ (dateOf (time.nanos / perSecond / perDay)).1 ∧
    (dateOf (time.nanos / perSecond / perDay)).1 ≤ lastYear

instance (time : Timestamp) : Decidable time.InRange :=
  inferInstanceAs (Decidable (_ ∧ _))

theorem after?_cons {mark : Char} (h : Text.isBlank mark = false) (rest : List Char) :
    after? mark (mark :: rest) = some rest := by
  rw [after?, skipBlanks_cons h]
  simp

theorem toList_text (time : Timestamp) {month day second : Nat}
    (hdate : dateOf (time.nanos / perSecond / perDay) = (year, month, day))
    (hsecond : (time.nanos / perSecond % perDay).toNat = second) :
    time.text.toList = (yearText year).toList ++ '-' :: ((padded 2 month).toList ++
      '-' :: ((padded 2 day).toList ++ 'T' :: ((padded 2 (second / 3600)).toList ++
      ':' :: ((padded 2 (second / 60 % 60)).toList ++ ':' :: ((padded 2 (second % 60)).toList ++
      ((fractionText (time.nanos % perSecond).toNat).toList ++ ['Z'])))))) := by
  rw [text]
  simp [hdate, hsecond]

/-- **A point in time is read back from its text.** -/
theorem parse?_text (h : time.InRange) : parse? time.text = some time := by
  obtain ⟨hmonth, hmonth', hday, hday'⟩ := dateOf_valid (time.nanos / perSecond / perDay)
  have hdays := daysOf_dateOf (time.nanos / perSecond / perDay)
  rw [InRange] at h
  rcases hdate : dateOf (time.nanos / perSecond / perDay) with ⟨year, month, day⟩
  rw [hdate] at hmonth hmonth' hday hday' hdays h
  simp only at hmonth hmonth' hday hday' hdays h
  generalize hsecond : (time.nanos / perSecond % perDay).toNat = second
  have hsmall : second < 86400 := by
    rw [← hsecond, perDay]
    omega
  have hbound : daysInMonth year month ≤ 31 := by
    rw [daysInMonth_eq]
    split
    · split <;> decide
    · split <;> decide
  have hhyphen : ∀ rest, after? '-' ('-' :: rest) = some rest := after?_cons (by decide)
  have hcolon : ∀ rest, after? ':' (':' :: rest) = some rest := after?_cons (by decide)
  have hdateEnd : ∀ rest, afterDate? ('T' :: rest) = some rest := fun _ => rfl
  have hoffset : offset? ['Z'] = some (0, []) := rfl
  have hnumber : ∀ n < 100, ∀ rest, number? 2 ((padded 2 n).toList ++ rest) = some (n, rest) :=
    fun n hn => number?_padded hn
  have hnanos : (time.nanos % perSecond).toNat < 1000000000 := by
    rw [perSecond]
    omega
  rw [parse?, toList_text time hdate hsecond, year?_yearText]
  simp only [bind, Option.bind, hhyphen, hcolon, hdateEnd, hoffset,
    hnumber month (by omega), hnumber day (by omega), hnumber (second / 3600) (by omega),
    hnumber (second / 60 % 60) (by omega), hnumber (second % 60) (by omega),
    fraction?_fractionText hnanos]
  have hhour : second / 3600 < 24 := by omega
  have hminute : second / 60 % 60 < 60 := by omega
  have hlast : second % 60 ≤ 60 := by omega
  have hblank : (Text.skipBlanks []).isEmpty = true := rfl
  -- what was read adds up to the point in time
  have hsum : (daysOf year month day * perDay + (second / 3600 : Nat) * 3600 +
      (second / 60 % 60 : Nat) * 60 + (second % 60 : Nat) - 0) * perSecond +
        ((time.nanos % perSecond).toNat : Int) = time.nanos := by
    rw [hdays]
    simp only [perSecond, perDay] at hsecond ⊢
    omega
  simp only [hblank, h.1, h.2, hmonth, hmonth', hday, hday', hhour, hminute, hlast, decide_true,
    Bool.and_self, Bool.not_true, Bool.false_eq_true, if_false, hsum]
  rfl

end BuildMatrix.Timestamp
