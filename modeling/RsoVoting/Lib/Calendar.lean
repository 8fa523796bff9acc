import Mathlib.Order.Monotone.Basic
import Mathlib.Tactic.IntervalCases
import Mathlib.Tactic.NormNum

namespace RsoVoting.Calendar

/-!
# The Gregorian calendar

Dates and days.  Days are numbered from 1 January 1970, and the calendar is continued in both
directions without a gap.  A day number is also given to a month or a day out of range: the
excess is carried into the next months and years, or the previous ones.

* `leapDay` / `newYear` — the leap years, and the number of the first day of a year;
* `dayNumber` — the number of a day by its year, month and day, with carrying;
* `Date` — the dates that exist; `Date.ofNumber` — the date of a day;
* `Date.anniversary` — the day on which a date returns, 1 March for a 29 February that does
  not exist;
* `Date.completedYears` — an age in years, and `completedYears_eq_iff`: counted in birthdays;
* `Date.leapDays` — the leap days between two birthdays;
* `Date.addYears` — the date some years later, or the last day of the month.
-/

/-! ### Years -/

/-- The number of leap days in a year: 1 if 4 divides it, unless 100 does and 400 does not. -/
def leapDay (year : ℤ) : ℤ := if year % 4 = 0 ∧ (year % 100 ≠ 0 ∨ year % 400 = 0) then 1 else 0

/-- The number of the first day of a year; there are 477 leap years before 1970. -/
def newYear (year : ℤ) : ℤ :=
  365 * (year - 1970) + ((year - 1) / 4 - (year - 1) / 100 + (year - 1) / 400) - 477

theorem leapDay_range (year : ℤ) : 0 ≤ leapDay year ∧ leapDay year ≤ 1 := by
  unfold leapDay
  split <;> omega

/-- A year has 365 days and its leap day. -/
theorem newYear_succ (year : ℤ) : newYear (year + 1) = newYear year + 365 + leapDay year := by
  unfold newYear leapDay
  split <;> omega

theorem newYear_lt_succ (year : ℤ) : newYear year < newYear (year + 1) := by
  have hsucc := newYear_succ year
  have hleap := leapDay_range year
  omega

/-- Later years start later. -/
theorem newYear_le {year year' : ℤ} (h : year ≤ year') : newYear year ≤ newYear year' :=
  (strictMono_int_of_lt_succ newYear_lt_succ).monotone h

/-- The leap days of some years, by their number. -/
theorem newYear_add (year : ℤ) {k : ℤ} (hk : 0 ≤ k) :
    365 * k ≤ newYear (year + k) - newYear year ∧
      newYear (year + k) - newYear year ≤ 365 * k + (k + 7) / 4 := by
  constructor
  · obtain ⟨n, rfl⟩ := Int.eq_ofNat_of_zero_le hk
    induction n with
    | zero => simp
    | succ n ih =>
      have hsucc := newYear_succ (year + n)
      have hleap := leapDay_range (year + n)
      have hn := ih (by omega)
      push_cast
      rw [← add_assoc]
      omega
  · unfold newYear
    omega

/-! ### Months and days -/

/-- The number of days before a month of a year.  Without February's two missing days, the
    months would have 30 and 31 days as this fraction distributes them. -/
def daysBeforeMonth (year month : ℤ) : ℤ :=
  (367 * month - 362) / 12 - if month ≤ 2 then 0 else 2 - leapDay year

/-- The number of days of a month. -/
def monthLength (year month : ℤ) : ℤ :=
  if month = 2 then 28 + leapDay year
  else if month = 4 ∨ month = 6 ∨ month = 9 ∨ month = 11 then 30
  else 31

theorem daysBeforeMonth_succ (year : ℤ) {month : ℤ} (h : 1 ≤ month ∧ month ≤ 12) :
    daysBeforeMonth year (month + 1) = daysBeforeMonth year month + monthLength year month := by
  obtain ⟨hlo, hhi⟩ := h
  unfold daysBeforeMonth monthLength
  interval_cases month <;> norm_num <;> omega

theorem monthLength_range (year month : ℤ) :
    28 ≤ monthLength year month ∧ monthLength year month ≤ 31 := by
  have hleap := leapDay_range year
  unfold monthLength
  split
  · omega
  · split <;> omega

/-- The length of a month varies by the leap day. -/
theorem monthLength_le (year year' month : ℤ) :
    monthLength year month ≤ monthLength year' month + 1 := by
  have hleap := leapDay_range year
  have hleap' := leapDay_range year'
  unfold monthLength
  split
  · omega
  · split <;> omega

/-- It depends on the last two digits of the year alone, apart from the full centuries. -/
theorem monthLength_emod {year : ℤ} (h : year % 100 ≠ 0) (month : ℤ) :
    monthLength (year % 100) month = monthLength year month := by
  have hleap : leapDay (year % 100) = leapDay year := by
    unfold leapDay
    split <;> split <;> omega
  unfold monthLength
  rw [hleap]

/-- The number of a day.  Months are carried into years and days into months, so every year,
    month and day has one. -/
def dayNumber (year month day : ℤ) : ℤ :=
  let y := year + (month - 1) / 12
  newYear y + daysBeforeMonth y ((month - 1) % 12 + 1) + (day - 1)

/-- A month of the year needs no carrying. -/
theorem dayNumber_eq {year month day : ℤ} (h : 1 ≤ month ∧ month ≤ 12) :
    dayNumber year month day = newYear year + daysBeforeMonth year month + (day - 1) := by
  have hy : year + (month - 1) / 12 = year := by omega
  have hm : (month - 1) % 12 + 1 = month := by omega
  show newYear (year + (month - 1) / 12) + _ + _ = _
  rw [hy, hm]

/-- The bounds of the days before a month, within a year that they are counted in. -/
theorem daysBeforeMonth_range (year : ℤ) {month : ℤ} (h : 1 ≤ month ∧ month ≤ 12) :
    0 ≤ daysBeforeMonth year month ∧
      daysBeforeMonth year month + monthLength year month ≤ 365 + leapDay year := by
  have hleap := leapDay_range year
  have hsucc := daysBeforeMonth_succ year h
  rw [← hsucc]
  unfold daysBeforeMonth
  constructor <;> split <;> omega

/-- Earlier months end before later ones start. -/
theorem daysBeforeMonth_lt (year : ℤ) {month month' : ℤ} (h : 1 ≤ month ∧ month < month')
    (h' : month' ≤ 12) :
    daysBeforeMonth year month + monthLength year month ≤ daysBeforeMonth year month' := by
  have hleap := leapDay_range year
  rw [← daysBeforeMonth_succ year ⟨h.1, by omega⟩]
  unfold daysBeforeMonth
  split <;> split <;> omega

/-! ### Dates -/

/-- A date of the calendar. -/
@[ext] structure Date where
  year : ℤ
  month : ℤ
  day : ℤ
  monthRange : 1 ≤ month ∧ month ≤ 12
  dayRange : 1 ≤ day ∧ day ≤ monthLength year month
deriving DecidableEq, Repr

namespace Date

/-- The number of the day. -/
def number (date : Date) : ℤ := dayNumber date.year date.month date.day

theorem number_eq (date : Date) :
    date.number = newYear date.year + daysBeforeMonth date.year date.month + (date.day - 1) := by
  unfold number
  exact dayNumber_eq date.monthRange

/-- A day lies in its year. -/
theorem number_range (date : Date) :
    newYear date.year ≤ date.number ∧ date.number < newYear (date.year + 1) := by
  have hmonth := daysBeforeMonth_range date.year date.monthRange
  have hday := date.dayRange
  rw [date.number_eq, newYear_succ]
  omega

/-- A date is before another one in the same year. -/
def Before (month day month' day' : ℤ) : Prop := month < month' ∨ month = month' ∧ day < day'

instance (month day month' day' : ℤ) : Decidable (Before month day month' day') :=
  inferInstanceAs (Decidable (_ ∨ _))

/-- The completed years between a birth and a day: one less than the difference of the years
    until the birthday. -/
def completedYears (birth today : Date) : ℤ :=
  today.year - birth.year -
    if Before today.month today.day birth.month birth.day then 1 else 0

/-- The day on which a date returns after `k` years. -/
def anniversary (birth : Date) (k : ℤ) : ℤ := dayNumber (birth.year + k) birth.month birth.day

@[simp] theorem anniversary_zero (birth : Date) : birth.anniversary 0 = birth.number := by
  unfold anniversary number
  rw [add_zero]

/-- The date `k` years later, or the last day of the month if there is no such date. -/
def addYears (date : Date) (k : ℤ) : Date where
  year := date.year + k
  month := date.month
  day := min date.day (monthLength (date.year + k) date.month)
  monthRange := date.monthRange
  dayRange := by
    have hlen := monthLength_range (date.year + k) date.month
    have hday := date.dayRange
    omega

/-! ### The date of a day -/

/-- The year of a day, estimated by the mean length of a year and corrected. -/
def yearOf (n : ℤ) : ℤ :=
  let year := 400 * (n + 719162) / 146097 + 1
  if n < newYear year then year - 1
  else if newYear (year + 1) ≤ n then year + 1
  else year

/-- The month of the `n`-th day of a year, counted from 0. -/
def monthOf (year n : ℤ) : ℤ :=
  (12 * (n + if n < 59 + leapDay year then 0 else 2 - leapDay year) + 373) / 367

theorem yearOf_spec (n : ℤ) : newYear (yearOf n) ≤ n ∧ n < newYear (yearOf n + 1) := by
  have hlo : newYear (400 * (n + 719162) / 146097 + 1 - 1) ≤ n := by
    unfold newYear
    omega
  have hhi : n < newYear (400 * (n + 719162) / 146097 + 1 + 1 + 1) := by
    unfold newYear
    omega
  unfold yearOf
  dsimp only
  split
  · next h =>
    rw [sub_add_cancel]
    exact ⟨hlo, h⟩
  · next h =>
    split
    · next h' => exact ⟨h', hhi⟩
    · next h' => exact ⟨not_lt.mp h, not_le.mp h'⟩

theorem monthOf_spec (year : ℤ) {n : ℤ} (h : 0 ≤ n ∧ n < 365 + leapDay year) :
    (1 ≤ monthOf year n ∧ monthOf year n ≤ 12) ∧
      daysBeforeMonth year (monthOf year n) ≤ n ∧
      n < daysBeforeMonth year (monthOf year n) + monthLength year (monthOf year n) := by
  have hleap := leapDay_range year
  have hmonth : 1 ≤ monthOf year n ∧ monthOf year n ≤ 12 := by
    unfold monthOf
    split <;> omega
  rw [← daysBeforeMonth_succ year hmonth]
  refine ⟨hmonth, ?_⟩
  unfold daysBeforeMonth monthOf
  split <;> constructor <;> split <;> omega

/-- The date of a day. -/
def ofNumber (n : ℤ) : Date where
  year := yearOf n
  month := monthOf (yearOf n) (n - newYear (yearOf n))
  day := n - newYear (yearOf n) -
    daysBeforeMonth (yearOf n) (monthOf (yearOf n) (n - newYear (yearOf n))) + 1
  monthRange := by
    have hyear := yearOf_spec n
    rw [newYear_succ] at hyear
    exact (monthOf_spec (yearOf n) ⟨by omega, by omega⟩).1
  dayRange := by
    have hyear := yearOf_spec n
    rw [newYear_succ] at hyear
    have hmonth := (monthOf_spec (yearOf n)
      (⟨by omega, by omega⟩ : 0 ≤ n - newYear (yearOf n) ∧ _)).2
    omega

/-- **Every day has a date.** -/
@[simp] theorem number_ofNumber (n : ℤ) : (ofNumber n).number = n := by
  rw [number_eq]
  unfold ofNumber
  dsimp only
  omega

/-- A day has one date. -/
theorem number_injective : Function.Injective number := by
  intro date date' h
  have hrange := date.number_range
  have hrange' := date'.number_range
  have hday := date.dayRange
  have hday' := date'.dayRange
  have hyear : date.year = date'.year := by
    rcases lt_trichotomy date.year date'.year with hlt | heq | hgt
    · have hle := newYear_le (show date.year + 1 ≤ date'.year by omega)
      omega
    · exact heq
    · have hle := newYear_le (show date'.year + 1 ≤ date.year by omega)
      omega
  rw [number_eq, number_eq] at h
  rw [hyear] at h hday
  have hmonth : date.month = date'.month := by
    rcases lt_trichotomy date.month date'.month with hlt | heq | hgt
    · have hle := daysBeforeMonth_lt date'.year ⟨date.monthRange.1, hlt⟩ date'.monthRange.2
      omega
    · exact heq
    · have hle := daysBeforeMonth_lt date'.year ⟨date'.monthRange.1, hgt⟩ date.monthRange.2
      omega
  rw [hmonth] at h
  exact Date.ext hyear hmonth (by omega)

/-- The date of the day of a date. -/
theorem ofNumber_number (date : Date) : ofNumber date.number = date := by
  apply number_injective
  exact number_ofNumber _

/-! ### Birthdays -/

/-- The leap days between two birthdays: the days they are apart above 365 a year. -/
def leapDays (birth : Date) (j k : ℤ) : ℤ :=
  birth.anniversary k - birth.anniversary j - 365 * (k - j)

/-- The first year whose leap day is after the birth date. -/
def firstLeapYear (birth : Date) : ℤ := if birth.month ≤ 2 then birth.year else birth.year + 1

/-- Birthdays are as far apart as the first days of years. -/
theorem anniversary_sub (birth : Date) (j k : ℤ) :
    birth.anniversary k - birth.anniversary j =
      newYear (birth.firstLeapYear + k) - newYear (birth.firstLeapYear + j) := by
  have hk := newYear_succ (birth.year + k)
  have hj := newYear_succ (birth.year + j)
  unfold anniversary firstLeapYear
  rw [dayNumber_eq birth.monthRange, dayNumber_eq birth.monthRange]
  unfold daysBeforeMonth
  split
  · omega
  · -- the leap day of the birthday's own year is before it
    rw [show birth.year + 1 + k = birth.year + k + 1 by omega,
      show birth.year + 1 + j = birth.year + j + 1 by omega]
    omega

theorem leapDays_range (birth : Date) {j k : ℤ} (h : j ≤ k) :
    0 ≤ birth.leapDays j k ∧ birth.leapDays j k ≤ (k - j + 7) / 4 := by
  have hsub := birth.anniversary_sub j k
  have hadd := newYear_add (birth.firstLeapYear + j) (show 0 ≤ k - j by omega)
  rw [show birth.firstLeapYear + j + (k - j) = birth.firstLeapYear + k by omega] at hadd
  unfold leapDays
  omega

/-- Later birthdays are later. -/
theorem anniversary_le (birth : Date) {j k : ℤ} (h : j ≤ k) :
    birth.anniversary j ≤ birth.anniversary k := by
  have hrange := birth.leapDays_range h
  unfold leapDays at hrange
  omega

/-- The birthday in a year, by the month and day of the birth. -/
theorem anniversary_eq (birth : Date) (year : ℤ) :
    birth.anniversary (year - birth.year) =
      newYear year + daysBeforeMonth year birth.month + (birth.day - 1) := by
  unfold anniversary
  rw [dayNumber_eq birth.monthRange, add_sub_cancel]

/-- A birthday is in its year, or on the first day of the next one. -/
theorem anniversary_range (birth : Date) (year : ℤ) :
    newYear year ≤ birth.anniversary (year - birth.year) ∧
      birth.anniversary (year - birth.year) ≤ newYear (year + 1) := by
  have hmonth := daysBeforeMonth_range year birth.monthRange
  have hlen := monthLength_le birth.year year birth.month
  have hday := birth.dayRange
  rw [anniversary_eq, newYear_succ]
  omega

/-- A day is before the birthday of its year exactly if its month and day are. -/
theorem number_lt_anniversary_iff (birth today : Date) :
    today.number < birth.anniversary (today.year - birth.year) ↔
      Before today.month today.day birth.month birth.day := by
  have hlen := monthLength_le birth.year today.year birth.month
  have hbirth := birth.dayRange
  have htoday := today.dayRange
  rw [number_eq, anniversary_eq]
  unfold Before
  rcases lt_trichotomy today.month birth.month with hlt | heq | hgt
  · have hle := daysBeforeMonth_lt today.year ⟨today.monthRange.1, hlt⟩ birth.monthRange.2
    omega
  · rw [heq]
    omega
  · have hle := daysBeforeMonth_lt today.year ⟨birth.monthRange.1, hgt⟩ today.monthRange.2
    omega

/-- **The completed years end with the last birthday**: it has been reached, and the next one
    has not. -/
theorem completedYears_spec (birth today : Date) :
    birth.anniversary (birth.completedYears today) ≤ today.number ∧
      today.number < birth.anniversary (birth.completedYears today + 1) := by
  have hnumber := today.number_range
  have hiff := number_lt_anniversary_iff birth today
  unfold completedYears
  split
  · next h =>
    have hprev := (birth.anniversary_range (today.year - 1)).2
    rw [sub_add_cancel, show today.year - 1 - birth.year = today.year - birth.year - 1 by omega]
      at hprev
    rw [sub_add_cancel]
    exact ⟨hprev.trans hnumber.1, hiff.mpr h⟩
  · next h =>
    have hnext := (birth.anniversary_range (today.year + 1)).1
    rw [show today.year + 1 - birth.year = today.year - birth.year - 0 + 1 by omega] at hnext
    rw [sub_zero] at hnext ⊢
    exact ⟨not_lt.mp fun hlt => h (hiff.mp hlt), hnumber.2.trans_le hnext⟩

/-- The completed years are the birthdays that have been reached. -/
theorem completedYears_eq_iff (birth today : Date) (n : ℤ) :
    birth.completedYears today = n ↔
      birth.anniversary n ≤ today.number ∧ today.number < birth.anniversary (n + 1) := by
  have hspec := completedYears_spec birth today
  constructor
  · intro h
    rw [← h]
    exact hspec
  · intro h
    rcases lt_trichotomy (birth.completedYears today) n with hlt | heq | hgt
    · have hle := birth.anniversary_le (show birth.completedYears today + 1 ≤ n by omega)
      omega
    · exact heq
    · have hle := birth.anniversary_le (show n + 1 ≤ birth.completedYears today by omega)
      omega

end Date

/-- The last day of a leap year's February, and the day after it. -/
example : dayNumber 1970 1 1 = 0 ∧ dayNumber 2000 2 29 + 1 = dayNumber 2000 3 1 ∧
    dayNumber 2001 2 29 = dayNumber 2001 3 1 := by decide

end RsoVoting.Calendar
