import RsoVoting.Lib.Calendar

namespace RsoVoting.DateFormat

open RsoVoting.Calendar

/-!
# Dates with two-digit years

A date is written as six digits, `yyMMdd`, and read leniently: the last two digits of the
year are put into the hundred years from a given instant, and months and days out of range
are carried.  Instants are milliseconds since the beginning of 1970, without time zones.

* `fields` / `yyMMdd` — reading and writing the six digits;
* `fullYear` — the year of two digits, in the hundred years from a year;
* `parse` — the midnight of a date, in the hundred years from an instant;
* `parse_date` — a date that exists is read as itself, or a hundred years later if it is
  before the instant;
* `parse_range` — any six digits are read as a day near those years.
-/

/-! ### Six digits -/

/-- The number that two digits write. -/
def twoDigits (c c' : Char) : Option ℤ :=
  if c.isDigit && c'.isDigit then some (10 * (c.toNat - 48) + (c'.toNat - 48) : ℕ) else none

/-- The year, month and day of a text that begins with six digits. -/
def fields : List Char → Option (ℤ × ℤ × ℤ)
  | y :: y' :: m :: m' :: d :: d' :: _ => do
    return (← twoDigits y y', ← twoDigits m m', ← twoDigits d d')
  | _ => none

/-- A number below 100 in two digits. -/
def digits (n : ℤ) : List Char := [(n.toNat / 10).digitChar, (n.toNat % 10).digitChar]

/-- A date in six digits. -/
def yyMMdd (date : Date) : List Char :=
  digits (date.year % 100) ++ digits date.month ++ digits date.day

@[simp] theorem length_digits (n : ℤ) : (digits n).length = 2 := rfl

theorem twoDigits_digitChar {n : ℤ} (h : 0 ≤ n ∧ n < 100) :
    twoDigits (n.toNat / 10).digitChar (n.toNat % 10).digitChar = some n := by
  have htens : n.toNat / 10 < 10 := by omega
  have hunits : n.toNat % 10 < 10 := by omega
  unfold twoDigits
  rw [Nat.isDigit_digitChar, Nat.isDigit_digitChar, decide_eq_true htens,
    decide_eq_true hunits, Nat.toNat_digitChar_sub_48_of_lt_ten htens,
    Nat.toNat_digitChar_sub_48_of_lt_ten hunits]
  apply congrArg some
  omega

/-- Digits write a number below 100. -/
theorem twoDigits_of_isDigit {c c' : Char} (h : c.isDigit = true) (h' : c'.isDigit = true) :
    ∃ n, twoDigits c c' = some n ∧ 0 ≤ n ∧ n < 100 := by
  have hrange : ∀ {c : Char}, c.isDigit = true → c.toNat - 48 < 10 := by
    intro c hc
    have hle : c.toNat ≤ 57 := by
      have hc' := (Bool.and_eq_true_iff.mp hc).2
      exact of_decide_eq_true hc'
    omega
  have htens := hrange h
  have hunits := hrange h'
  refine ⟨_, by rw [twoDigits, h, h']; rfl, ?_⟩
  omega

/-- Only the first six characters are read. -/
theorem fields_take (text : List Char) : fields (text.take 6) = fields text := by
  rcases text with _ | ⟨y, _ | ⟨y', _ | ⟨m, _ | ⟨m', _ | ⟨d, _ | ⟨d', rest⟩⟩⟩⟩⟩⟩ <;> rfl

/-- **Reading what has been written.** -/
theorem fields_yyMMdd (date : Date) :
    fields (yyMMdd date) = some (date.year % 100, date.month, date.day) := by
  have hmonth := date.monthRange
  have hday := date.dayRange
  have hlen := monthLength_range date.year date.month
  show (do return (← twoDigits _ _, ← twoDigits _ _, ← twoDigits _ _)) = _
  rw [twoDigits_digitChar (n := date.year % 100) (by omega),
    twoDigits_digitChar (n := date.month) (by omega),
    twoDigits_digitChar (n := date.day) (by omega)]
  rfl

/-- Any six digits can be read. -/
theorem fields_of_isDigit {text : List Char} (hlen : 6 ≤ text.length)
    (hdigit : ∀ c ∈ text.take 6, c.isDigit = true) :
    ∃ yy mm dd, fields text = some (yy, mm, dd) ∧
      (0 ≤ yy ∧ yy < 100) ∧ (0 ≤ mm ∧ mm < 100) ∧ (0 ≤ dd ∧ dd < 100) := by
  match text with
  | y :: y' :: m :: m' :: d :: d' :: rest =>
    have hall : ∀ c ∈ [y, y', m, m', d, d'], c.isDigit = true := hdigit
    simp only [List.forall_mem_cons] at hall
    obtain ⟨hy, hy', hm, hm', hd, hd', -⟩ := hall
    obtain ⟨yy, hyy, hyear⟩ := twoDigits_of_isDigit hy hy'
    obtain ⟨mm, hmm, hmonth⟩ := twoDigits_of_isDigit hm hm'
    obtain ⟨dd, hdd, hday⟩ := twoDigits_of_isDigit hd hd'
    refine ⟨yy, mm, dd, ?_, hyear, hmonth, hday⟩
    rw [fields, hyy, hmm, hdd]
    rfl

/-! ### Instants -/

/-- The milliseconds of a day. -/
def dayMillis : ℤ := 86400000

/-- The first instant of a day. -/
def midnight (n : ℤ) : ℤ := dayMillis * n

/-- The date of an instant. -/
def dateOf (instant : ℤ) : Date := .ofNumber (instant / dayMillis)

/-- The instant some years later, at the same time of the day. -/
def addYears (instant k : ℤ) : ℤ :=
  midnight ((dateOf instant).addYears k).number + instant % dayMillis

theorem number_dateOf (instant : ℤ) : (dateOf instant).number = instant / dayMillis :=
  Date.number_ofNumber _

/-- An instant is on its day. -/
theorem dateOf_spec (instant : ℤ) :
    midnight (dateOf instant).number ≤ instant ∧
      instant < midnight ((dateOf instant).number + 1) := by
  rw [number_dateOf]
  unfold midnight dayMillis
  omega

/-- An instant is before a midnight exactly if its day is. -/
theorem lt_midnight_iff (instant n : ℤ) : instant < midnight n ↔ (dateOf instant).number < n := by
  rw [number_dateOf]
  unfold midnight dayMillis
  omega

theorem dateOf_addYears (instant k : ℤ) :
    dateOf (addYears instant k) = (dateOf instant).addYears k := by
  have hday : addYears instant k / dayMillis = ((dateOf instant).addYears k).number := by
    unfold addYears midnight dayMillis
    omega
  unfold dateOf at hday ⊢
  rw [hday, Date.ofNumber_number]

theorem year_dateOf_addYears (instant k : ℤ) :
    (dateOf (addYears instant k)).year = (dateOf instant).year + k := by
  rw [dateOf_addYears]
  rfl

/-! ### The hundred years -/

/-- The first year from `startYear` on that ends with two digits. -/
def fullYear (startYear yy : ℤ) : ℤ :=
  yy + startYear / 100 * 100 + if yy < startYear % 100 then 100 else 0

/-- The midnight of a date with a two-digit year: in the first such year from that of `start`
    on, or a hundred years later if it is the same year and the date is before `start`. -/
def parse (start yy mm dd : ℤ) : ℤ :=
  let startYear := (dateOf start).year
  let parsed := midnight (dayNumber (fullYear startYear yy) mm dd)
  -- only the first of the hundred years is in part before their start
  if yy = startYear % 100 ∧ parsed < start then
    midnight (dayNumber (fullYear startYear yy + 100) mm dd)
  else parsed

theorem fullYear_range (startYear : ℤ) {yy : ℤ} (h : 0 ≤ yy ∧ yy < 100) :
    startYear ≤ fullYear startYear yy ∧ fullYear startYear yy < startYear + 100 := by
  unfold fullYear
  split <;> omega

/-- A year less than a hundred years away is read as itself or a hundred years later. -/
theorem fullYear_emod {startYear year : ℤ} (h : startYear - 99 ≤ year ∧ year ≤ startYear + 99) :
    fullYear startYear (year % 100) = if year < startYear then year + 100 else year := by
  unfold fullYear
  split <;> split <;> omega

/-- **A date that exists** is read as itself if it is not before the start of the hundred
    years, and as its hundredth anniversary otherwise. -/
theorem parse_date (start : ℤ) (date : Date)
    (h : (dateOf start).year - 99 ≤ date.year ∧ date.year ≤ (dateOf start).year + 99) :
    parse start (date.year % 100) date.month date.day =
      midnight (if midnight date.number < start then date.anniversary 100 else date.number) := by
  have hstart := (dateOf start).number_range
  have hdate := date.number_range
  have hbefore := lt_midnight_iff start date.number
  unfold parse
  dsimp only
  rw [fullYear_emod h]
  rcases lt_trichotomy date.year (dateOf start).year with hlt | heq | hgt
  · -- an earlier year: the date is before the start, and its year is not the ambiguous one
    have hle := newYear_le (show date.year + 1 ≤ (dateOf start).year by omega)
    have hmod : ¬date.year % 100 = (dateOf start).year % 100 := by omega
    have hlate : midnight date.number < start := by
      have hday := dateOf_spec start
      unfold midnight dayMillis at *
      omega
    rw [if_pos hlt, if_neg (fun hand => hmod hand.1), if_pos hlate]
    rfl
  · rw [heq, if_neg (lt_irrefl _), ← heq]
    show (if date.year % 100 = date.year % 100 ∧ midnight date.number < start then
      midnight (date.anniversary 100) else midnight date.number) = _
    by_cases hlate : midnight date.number < start
    · rw [if_pos ⟨rfl, hlate⟩, if_pos hlate]
    · rw [if_neg (fun hand => hlate hand.2), if_neg hlate]
  · have hle := newYear_le (show (dateOf start).year + 1 ≤ date.year by omega)
    have hmod : ¬date.year % 100 = (dateOf start).year % 100 := by omega
    have hlate : ¬midnight date.number < start := by omega
    rw [if_neg (not_lt.mpr hgt.le), if_neg (fun hand => hmod hand.1), if_neg hlate]
    rfl

/-- A date that exists in every year with its two digits is read as one of these. -/
theorem exists_date_of_parse (start : ℤ) {yy mm dd : ℤ} (hyy : 0 < yy ∧ yy < 100)
    (hmm : 1 ≤ mm ∧ mm ≤ 12) (hdd : 1 ≤ dd ∧ dd ≤ monthLength yy mm) :
    ∃ date : Date, date.year % 100 = yy ∧ date.month = mm ∧ date.day = dd ∧
      parse start yy mm dd = midnight date.number := by
  have hexists : ∀ {year : ℤ}, year % 100 = yy → 1 ≤ dd ∧ dd ≤ monthLength year mm := by
    intro year hyear
    rw [← monthLength_emod (by omega), hyear]
    exact hdd
  have hyear : fullYear (dateOf start).year yy % 100 = yy := by
    unfold fullYear
    split <;> omega
  have hyear' : (fullYear (dateOf start).year yy + 100) % 100 = yy := by omega
  unfold parse
  dsimp only
  split
  · exact ⟨⟨_, mm, dd, hmm, hexists hyear'⟩, hyear', rfl, rfl, rfl⟩
  · exact ⟨⟨_, mm, dd, hmm, hexists hyear⟩, hyear, rfl, rfl, rfl⟩

/-- Two digits for the month and for the day carry a day into the next ten years at most. -/
theorem dayNumber_range (year : ℤ) {mm dd : ℤ} (hmm : 0 ≤ mm ∧ mm < 100)
    (hdd : 0 ≤ dd ∧ dd < 100) :
    newYear year - 32 ≤ dayNumber year mm dd ∧ dayNumber year mm dd < newYear (year + 10) := by
  have hmonth := daysBeforeMonth_range (year + (mm - 1) / 12)
    (show 1 ≤ (mm - 1) % 12 + 1 ∧ (mm - 1) % 12 + 1 ≤ 12 by omega)
  have hlen := monthLength_range (year + (mm - 1) / 12) ((mm - 1) % 12 + 1)
  have hnext := newYear_succ (year + (mm - 1) / 12)
  have hnext' := newYear_succ (year + (mm - 1) / 12 + 1)
  have hleap := leapDay_range (year + (mm - 1) / 12 + 1)
  show _ ≤ newYear _ + _ + _ ∧ newYear _ + _ + _ < _
  constructor
  · rcases eq_or_lt_of_le hmm.1 with hzero | hpos
    · -- month 0 is the December before
      rw [← hzero]
      have hdec := newYear_succ (year - 1)
      rw [sub_add_cancel] at hdec
      show _ ≤ newYear (year + -1) + daysBeforeMonth (year + -1) 12 + _
      rw [← sub_eq_add_neg]
      unfold daysBeforeMonth
      omega
    · have hle := newYear_le (show year ≤ year + (mm - 1) / 12 by omega)
      omega
  · have hle := newYear_le (show year + (mm - 1) / 12 + 1 + 1 ≤ year + 10 by omega)
    omega

/-- **Any six digits** are read as a day from the December before the hundred years to ten
    years after them. -/
theorem parse_range (start : ℤ) {yy mm dd : ℤ} (hyy : 0 ≤ yy ∧ yy < 100)
    (hmm : 0 ≤ mm ∧ mm < 100) (hdd : 0 ≤ dd ∧ dd < 100) :
    midnight (newYear (dateOf start).year - 32) ≤ parse start yy mm dd ∧
      parse start yy mm dd < midnight (newYear ((dateOf start).year + 110)) := by
  have hfull := fullYear_range (dateOf start).year hyy
  have hday := dayNumber_range (fullYear (dateOf start).year yy) hmm hdd
  have hday' := dayNumber_range (fullYear (dateOf start).year yy + 100) hmm hdd
  have hlo := newYear_le hfull.1
  unfold parse midnight dayMillis
  dsimp only
  split
  · next h =>
    -- the ambiguous year is the first one
    have hfirst : fullYear (dateOf start).year yy = (dateOf start).year := by
      rw [h.1, fullYear_emod (by omega), if_neg (lt_irrefl _)]
    rw [hfirst] at hday' ⊢
    have hle := newYear_le (show (dateOf start).year ≤ (dateOf start).year + 100 by omega)
    rw [show (dateOf start).year + 100 + 10 = (dateOf start).year + 110 by omega] at hday'
    omega
  · have hhi := newYear_le
      (show fullYear (dateOf start).year yy + 10 ≤ (dateOf start).year + 110 by omega)
    omega

end RsoVoting.DateFormat
