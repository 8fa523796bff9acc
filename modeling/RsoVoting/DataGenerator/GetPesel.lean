import RsoVoting.Aggregator.Age

namespace RsoVoting.DataGenerator

open RsoVoting RsoVoting.Calendar RsoVoting.DateFormat RsoVoting.Aggregator

/-!
# Generated Pesels

The data generator puts a Pesel together from random parts: a year, the month of one date,
the day of another one, and five more digits.  The aggregator reads the birth date from its
first six characters.

* `getPesel` — the string that is generated;
* `Encodes` — it has 11 digits, and the aggregator reads the date it has been made of;
* `getPesel_encodes_iff` — it does if the day has two digits and exists in the month;
* `fields_getPesel_of_lt` — a day of one digit is replaced by the first digit of the month;
* `getPesel_twelve_digits` — and the string is then too long.
-/

/-! ### The generator -/

/-- `GetPesel()`, from the two dates, the year and the last digits that it draws. -/
def getPesel (monthDate dayDate : Date) (year tail : ℕ) : String :=
  let month := toString monthDate.month.toNat
  let month := if month.length = 1 then "0" ++ month else month
  let year := toString year
  let day := toString dayDate.day.toNat
  -- the zero is put before the month
  let day := if day.length = 1 then "0" ++ month else day
  year ++ month ++ day ++ toString tail

/-- A Pesel of 11 digits encodes a date if its first six characters are an existing date with
    this year, month and day, and every aggregator reads this date from it. -/
structure Encodes (pesel : String) (year month day : ℤ) : Prop where
  length : pesel.length = 11
  digits : ∀ c ∈ pesel.toList, c.isDigit = true
  date : ∀ (now : Int64) (other : String → Option Int64), ∃ date : Date,
    date.year % 100 = year ∧ date.month = month ∧ date.day = day ∧
      pesel.toList.take 6 = yyMMdd date ∧
      (Clock.reading now other).parse pesel = some (.ofInt (midnight date.number))

/-! ### Its parts -/

/-- A number of two digits. -/
theorem toList_toString {n : ℕ} (h : 10 ≤ n ∧ n < 100) :
    (toString n).toList = DateFormat.digits n := by
  rw [Nat.toString_eq_repr, Nat.toList_repr, Nat.toDigits_of_base_le (by omega) h.1,
    Nat.toDigits_of_lt_base (by omega)]
  rfl

/-- A number of one digit. -/
theorem toList_toString_of_lt {n : ℕ} (h : n < 10) : (toString n).toList = [n.digitChar] := by
  rw [Nat.toString_eq_repr, Nat.toList_repr, Nat.toDigits_of_lt_base h]

/-- The length is 1 for a single digit only. -/
theorem length_toString_eq_one_iff {n : ℕ} (h : n < 100) : (toString n).length = 1 ↔ n < 10 := by
  rw [← String.length_toList]
  constructor
  · intro hlen
    by_contra hge
    rw [toList_toString (by omega)] at hlen
    simp [DateFormat.digits] at hlen
  · intro hlt
    rw [toList_toString_of_lt hlt]
    rfl

/-- Padding with a zero makes two digits. -/
theorem toList_padded {n : ℕ} (h : n < 100) :
    (if (toString n).length = 1 then "0" ++ toString n else toString n).toList =
      DateFormat.digits n := by
  simp only [length_toString_eq_one_iff h]
  split
  · next hlt =>
    rw [String.toList_append, toList_toString_of_lt hlt]
    show ['0', _] = [(n / 10).digitChar, (n % 10).digitChar]
    rw [Nat.div_eq_of_lt hlt, Nat.mod_eq_of_lt hlt]
    rfl
  · next hge => exact toList_toString (by omega)

/-- The last five digits. -/
theorem toList_tail {tail : ℕ} (h : 10000 ≤ tail ∧ tail ≤ 99999) :
    (toString tail).toList.length = 5 ∧ ∀ c ∈ (toString tail).toList, c.isDigit = true := by
  rw [Nat.toString_eq_repr, Nat.toList_repr]
  constructor
  · have hle := (Nat.length_toDigits_le_iff (b := 10) (n := tail) (k := 5) (by omega)
      (by omega)).mpr (by omega)
    have hgt := (Nat.length_toDigits_le_iff (b := 10) (n := tail) (k := 4) (by omega)
      (by omega)).not.mpr (by omega)
    omega
  · intro c hc
    exact Nat.isDigit_of_mem_toDigits (by omega) (by omega) hc

theorem isDigit_digits {n : ℤ} (h : 0 ≤ n ∧ n < 100) :
    ∀ c ∈ DateFormat.digits n, c.isDigit = true := by
  have htens : n.toNat / 10 < 10 := by omega
  have hunits : n.toNat % 10 < 10 := by omega
  unfold DateFormat.digits
  simp [htens, hunits]

/-! ### The generated string -/

section Generated

variable (monthDate dayDate : Date) {year : ℕ} (tail : ℕ)

/-- The month and the day of a date have at most two digits. -/
theorem date_range (date : Date) :
    (0 ≤ date.month ∧ date.month < 100) ∧ 0 ≤ date.day ∧ date.day < 100 := by
  have hmonth := date.monthRange
  have hday := date.dayRange
  have hlen := monthLength_range date.year date.month
  omega

/-- A day of two digits is put where it belongs. -/
theorem toList_getPesel (hyear : 20 ≤ year ∧ year ≤ 98) (hday : 10 ≤ dayDate.day) :
    (getPesel monthDate dayDate year tail).toList =
      DateFormat.digits year ++ DateFormat.digits monthDate.month ++
        DateFormat.digits dayDate.day ++ (toString tail).toList := by
  have hmonth := (date_range monthDate).1
  have hrange := (date_range dayDate).2
  have hdigits : ¬(toString dayDate.day.toNat).length = 1 := by
    rw [length_toString_eq_one_iff (by omega)]
    omega
  unfold getPesel
  dsimp only
  rw [if_neg hdigits, String.toList_append, String.toList_append, String.toList_append,
    toList_padded (by omega), toList_toString (by omega), toList_toString (by omega),
    Int.toNat_of_nonneg hmonth.1, Int.toNat_of_nonneg hrange.1]

/-- For a day of one digit, a zero and the month are put there. -/
theorem toList_getPesel_of_lt (hyear : 20 ≤ year ∧ year ≤ 98) (hday : dayDate.day < 10) :
    (getPesel monthDate dayDate year tail).toList =
      DateFormat.digits year ++ DateFormat.digits monthDate.month ++
        ('0' :: DateFormat.digits monthDate.month) ++ (toString tail).toList := by
  have hmonth := (date_range monthDate).1
  have hrange := (date_range dayDate).2
  have hdigits : (toString dayDate.day.toNat).length = 1 := by
    rw [length_toString_eq_one_iff (by omega)]
    omega
  unfold getPesel
  dsimp only
  rw [if_pos hdigits, String.toList_append, String.toList_append, String.toList_append,
    String.toList_append, toList_padded (by omega), toList_toString (by omega),
    Int.toNat_of_nonneg hmonth.1]
  rfl

/-- The aggregator then reads the first digit of the month as the day. -/
theorem fields_getPesel_of_lt (hyear : 20 ≤ year ∧ year ≤ 98) (hday : dayDate.day < 10) :
    fields (getPesel monthDate dayDate year tail).toList =
      some ((year : ℤ), monthDate.month, monthDate.month / 10) := by
  have hmonth := (date_range monthDate).1
  -- below 100, so its own first digit is a zero
  have htens : (monthDate.month / 10).toNat / 10 = 0 := by omega
  have hunits : (monthDate.month / 10).toNat % 10 = monthDate.month.toNat / 10 := by omega
  have hread := twoDigits_digitChar (n := monthDate.month / 10) (by omega)
  rw [htens, hunits] at hread
  rw [toList_getPesel_of_lt monthDate dayDate tail hyear hday]
  show (do return (← twoDigits _ _, ← twoDigits _ _, ← twoDigits (Nat.digitChar 0) _)) = _
  rw [twoDigits_digitChar (n := (year : ℤ)) (by omega), twoDigits_digitChar hmonth, hread]
  rfl

/-- A string of the right length that encodes an existing date. -/
theorem day_range_of_encodes (hyear : 20 ≤ year ∧ year ≤ 98)
    (htail : 10000 ≤ tail ∧ tail ≤ 99999)
    (h : Encodes (getPesel monthDate dayDate year tail) year monthDate.month dayDate.day) :
    10 ≤ dayDate.day ∧ dayDate.day ≤ monthLength (1900 + year) monthDate.month := by
  constructor
  · by_contra hlt
    have hlen := h.length
    rw [← String.length_toList,
      toList_getPesel_of_lt monthDate dayDate tail hyear (by omega)] at hlen
    simp only [List.length_append, List.length_cons, length_digits, (toList_tail htail).1] at hlen
    omega
  · obtain ⟨date, hdate, hmonth, hday, -, -⟩ := h.date 0 fun _ => none
    have hrange := date.dayRange
    have hmod : (1900 + (year : ℤ)) % 100 = year := by omega
    rw [← monthLength_emod (by omega), hdate, hmonth, hday] at hrange
    rw [← monthLength_emod (by omega), hmod]
    exact hrange.2

/-- A day of two digits that exists in the month. -/
theorem encodes_getPesel (hyear : 20 ≤ year ∧ year ≤ 98)
    (htail : 10000 ≤ tail ∧ tail ≤ 99999)
    (hday : 10 ≤ dayDate.day ∧ dayDate.day ≤ monthLength (1900 + year) monthDate.month) :
    Encodes (getPesel monthDate dayDate year tail) year monthDate.month dayDate.day := by
  have hlist := toList_getPesel monthDate dayDate tail hyear hday.1
  have htail' := toList_tail htail
  have hyear' : 0 < (year : ℤ) ∧ (year : ℤ) < 100 := by omega
  constructor
  case length =>
    rw [← String.length_toList, hlist]
    simp only [List.length_append, length_digits, htail'.1]
  case digits =>
    have hmonth := isDigit_digits (date_range monthDate).1
    have hday' := isDigit_digits (date_range dayDate).2
    rw [hlist]
    simp only [List.forall_mem_append]
    exact ⟨⟨⟨isDigit_digits ⟨hyear'.1.le, hyear'.2⟩, hmonth⟩, hday'⟩, htail'.2⟩
  case date =>
    intro now other
    have hexists : 1 ≤ dayDate.day ∧ dayDate.day ≤ monthLength year monthDate.month := by
      have hmod : (1900 + (year : ℤ)) % 100 = year := by omega
      rw [← monthLength_emod (by omega), hmod] at hday
      omega
    obtain ⟨date, hdate, hdmonth, hdday, hparse⟩ := exists_date_of_parse
      (addYears now.toInt (-80)) hyear' monthDate.monthRange hexists
    have htake : (getPesel monthDate dayDate year tail).toList.take 6 = yyMMdd date := by
      rw [hlist, yyMMdd, hdate, hdmonth, hdday]
      rfl
    have hread := parse_reading now other (fields_pesel htake)
    rw [hdate, hdmonth, hdday, hparse] at hread
    exact ⟨date, hdate, hdmonth, hdday, htake, hread⟩

end Generated

/-- **When a generated Pesel encodes its date**: for every two dates, every year and every
    five digits that can be drawn. -/
theorem getPesel_encodes_iff (monthDate dayDate : Date) (year tail : ℕ)
    (hyear : 20 ≤ year ∧ year ≤ 98) (htail : 10000 ≤ tail ∧ tail ≤ 99999) :
    Encodes (getPesel monthDate dayDate year tail) year monthDate.month dayDate.day ↔
      10 ≤ dayDate.day ∧ dayDate.day ≤ monthLength (1900 + year) monthDate.month := by
  constructor
  · exact day_range_of_encodes monthDate dayDate tail hyear htail
  · exact encodes_getPesel monthDate dayDate tail hyear htail

namespace Sample

/-- A date in February. -/
def february : Date := ⟨2000, 2, 14, by decide, by decide⟩

/-- The second day of a month. -/
def second : Date := ⟨2000, 3, 2, by decide, by decide⟩

/-- The thirtieth day of a month. -/
def thirtieth : Date := ⟨2000, 3, 30, by decide, by decide⟩

end Sample

/-- **Pesels that do not encode their date**: one of 12 characters, and a 30 February. -/
theorem getPesel_twelve_digits :
    (getPesel Sample.february Sample.second 90 46970 = "900200246970" ∧
      ¬Encodes (getPesel Sample.february Sample.second 90 46970) 90 2 2) ∧
    (getPesel Sample.february Sample.thirtieth 90 12345 = "90023012345" ∧
      ¬Encodes (getPesel Sample.february Sample.thirtieth 90 12345) 90 2 30) := by
  refine ⟨⟨by decide, ?_⟩, ⟨by decide, ?_⟩⟩
  · intro h
    exact absurd h.length (by decide)
  · intro h
    obtain ⟨date, -, hmonth, hday, -, -⟩ := h.date 0 fun _ => none
    have hrange := date.dayRange
    have hleap := leapDay_range date.year
    rw [hmonth, hday] at hrange
    unfold monthLength at hrange
    omega

/-- The fourteenth of a month is encoded. -/
theorem getPesel_encodes_iff_sample :
    Encodes (getPesel Sample.february Sample.february 90 12345) 90 2 14 ↔
      (10 : ℤ) ≤ 14 ∧ (14 : ℤ) ≤ monthLength (1900 + 90) 2 :=
  getPesel_encodes_iff Sample.february Sample.february 90 12345 (by decide) (by decide)

end RsoVoting.DataGenerator
