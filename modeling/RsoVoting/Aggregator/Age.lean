import RsoVoting.Aggregator.Statistics
import RsoVoting.Lib.DateFormat

namespace RsoVoting.Aggregator

open RsoVoting RsoVoting.Calendar RsoVoting.DateFormat

/-!
# Ages

`calcAgeFromPesel` reads the birth date from the first six digits of a Pesel and divides the
time since then by 365 days.  The format takes a date that is more than 80 years ago for one
in the next twenty years, and the quotient is then negative; whatever is below 18 gets 100
added.

* `Clock.reading` — the clock and the date format at an instant;
* `toInt_calcAgeFromPesel` — the computation without machine integers;
* `calcAgeFromPesel_eq_iff` — for which births and instants it is the number of completed
  years;
* `ageId_unique` — it is an age between 18 and 117 for all digits, so it is in exactly one
  group of a dictionary that covers these.
-/

/-- The clock at an instant.  `SimpleDateFormat("yyMMdd")` puts two-digit years into the
    hundred years that begin 80 years before; what it makes of a text that does not begin
    with six digits is `other`. -/
def Clock.reading (now : Int64) (other : String → Option Int64) : Clock where
  now := now
  parse pesel :=
    match fields pesel.toList with
    | some (yy, mm, dd) => some (.ofInt (DateFormat.parse (addYears now.toInt (-80)) yy mm dd))
    | none              => other pesel

/-! ### The computation -/

/-- The years of 365 days in a time, rounded towards zero. -/
def years (diff : ℤ) : ℤ := diff.tdiv (365 * dayMillis)

/-- The correction for birth dates that are read a hundred years late. -/
def corrected (years : ℤ) : ℤ := if years < 18 then years + 100 else years

/-- Dividing twice, both times rounding towards zero. -/
theorem tdiv_tdiv (d : ℤ) {a b : ℤ} (ha : 0 ≤ a) : (d.tdiv a).tdiv b = d.tdiv (a * b) := by
  have hnonneg : ∀ {d : ℤ}, 0 ≤ d → (d.tdiv a).tdiv b = d.tdiv (a * b) := by
    intro d hd
    have hquot : 0 ≤ d / a := Int.ediv_nonneg hd ha
    rw [Int.tdiv_eq_ediv_of_nonneg hd, Int.tdiv_eq_ediv_of_nonneg hquot,
      Int.tdiv_eq_ediv_of_nonneg hd, Int.ediv_ediv_of_nonneg ha]
  rcases le_or_gt 0 d with hpos | hneg
  · exact hnonneg hpos
  · have hneg' := hnonneg (show 0 ≤ -d by omega)
    rw [Int.neg_tdiv, Int.neg_tdiv, Int.neg_tdiv, neg_inj] at hneg'
    exact hneg'

/-- Dividing by the units of time one after the other. -/
theorem tdiv_units (diff : ℤ) :
    ((((diff.tdiv 1000).tdiv 60).tdiv 60).tdiv 24).tdiv 365 = years diff := by
  rw [tdiv_tdiv _ (by omega), tdiv_tdiv _ (by omega), tdiv_tdiv _ (by omega),
    tdiv_tdiv _ (by omega)]
  rfl

theorem years_of_nonneg {diff : ℤ} (h : 0 ≤ diff) : years diff = diff / (365 * dayMillis) :=
  Int.tdiv_eq_ediv_of_nonneg h

theorem years_neg {diff : ℤ} (h : 0 ≤ diff) : years (-diff) = -(diff / (365 * dayMillis)) := by
  unfold years
  rw [Int.neg_tdiv, Int.tdiv_eq_ediv_of_nonneg h]

/-- A time of less than `n + 1` years, in either direction. -/
theorem years_range {diff n : ℤ}
    (h : -(365 * dayMillis * (n + 1)) < diff ∧ diff < 365 * dayMillis * (n + 1)) :
    -n ≤ years diff ∧ years diff ≤ n := by
  rcases le_total 0 diff with hpos | hneg
  · rw [years_of_nonneg hpos]
    unfold dayMillis at *
    omega
  · have hneg' := years_neg (show 0 ≤ -diff by omega)
    rw [neg_neg] at hneg'
    rw [hneg']
    unfold dayMillis at *
    omega

/-- The correction leads from 82 years ahead and 117 years ago to the ages from 18 on. -/
theorem corrected_range {n : ℤ} (h : -82 ≤ n ∧ n ≤ 117) : 18 ≤ corrected n ∧ corrected n ≤ 117 := by
  unfold corrected
  split <;> omega

/-- **The computation without machine integers**: nothing overflows if the birth date is
    not millions of years away. -/
theorem toInt_calcAgeFromPesel {clock : Clock} {pesel : String} {birth : ℤ}
    (hparse : clock.parse pesel = some (.ofInt birth))
    (hrange : -2 ^ 60 ≤ clock.now.toInt - birth ∧ clock.now.toInt - birth ≤ 2 ^ 60) :
    (calcAgeFromPesel clock (some pesel)).toInt =
      corrected (years (clock.now.toInt - birth)) := by
  have hsub : (clock.now - .ofInt birth).toInt = clock.now.toInt - birth := by
    rw [Int64.toInt_sub, Int64.toInt_ofInt, show Int64.size = 2 ^ 64 from rfl,
      Int.sub_bmod_bmod]
    apply Int.bmod_eq_of_le <;> omega
  have hquot : ((clock.now - .ofInt birth) / 1000 / 60 / 60 / 24 / 365).toInt =
      years (clock.now.toInt - birth) := by
    rw [Int64.toInt_div_of_ne_right _ _ (by decide), Int64.toInt_div_of_ne_right _ _ (by decide),
      Int64.toInt_div_of_ne_right _ _ (by decide), Int64.toInt_div_of_ne_right _ _ (by decide),
      Int64.toInt_div_of_ne_right _ _ (by decide), hsub]
    exact tdiv_units _
  -- far from the bounds of an `int`
  have hyears := years_range
    (show -(365 * dayMillis * (2 ^ 30 + 1)) < clock.now.toInt - birth ∧
      clock.now.toInt - birth < 365 * dayMillis * (2 ^ 30 + 1) by
        unfold dayMillis
        omega)
  have heighteen : (18 : Int64).toInt = 18 := rfl
  unfold calcAgeFromPesel
  rw [Option.bind_some, hparse]
  dsimp only
  rw [Int64.toInt_toInt32, corrected]
  simp only [Int64.lt_iff_toInt_lt, hquot, heighteen]
  split
  · have hhundred : (100 : Int64).toInt = 100 := rfl
    rw [Int64.toInt_add, hquot, hhundred]
    rw [Int.bmod_eq_of_le (n := years _ + 100) (by omega) (by omega)]
    apply Int.bmod_eq_of_le <;> omega
  · rw [hquot]
    apply Int.bmod_eq_of_le <;> omega

/-! ### Completed years -/

/-- The completed years of life at an instant. -/
def age (birth : Date) (now : ℤ) : ℤ := birth.completedYears (dateOf now)

/-- When years of 365 days count the birthdays.  A date that is read as itself must not have
    so many leap days behind it that they fill the days until the next birthday; a date that
    is read a hundred years late must have at least the time since the last birthday in leap
    days ahead. -/
def CountsBirthdays (birth : Date) (now : ℤ) : Prop :=
  (addYears now (-80) ≤ midnight birth.number →
    (dateOf now).number - birth.anniversary (age birth now) + birth.leapDays 0 (age birth now) <
      365) ∧
  (midnight birth.number < addYears now (-80) →
    now - midnight (birth.anniversary (age birth now)) ≤
      dayMillis * birth.leapDays (age birth now) 100)

instance (birth : Date) (now : ℤ) : Decidable (CountsBirthdays birth now) :=
  inferInstanceAs (Decidable ((_ → _) ∧ (_ → _)))

/-- A date that is read as itself: the leap days behind it are counted as well. -/
theorem corrected_years_past {birth : Date} {now n : ℤ}
    (hage : age birth now = n) (hn : 18 ≤ n) :
    corrected (years (now - midnight birth.number)) = n ↔
      (dateOf now).number - birth.anniversary n + birth.leapDays 0 n < 365 := by
  have hspec := (birth.completedYears_eq_iff (dateOf now) n).mp hage
  have hleap := birth.leapDays_range (show 0 ≤ n by omega)
  have hnow := dateOf_spec now
  have hsub : birth.leapDays 0 n = birth.anniversary n - birth.number - 365 * n := by
    unfold Date.leapDays
    rw [Date.anniversary_zero, sub_zero]
  unfold midnight dayMillis at *
  rw [years_of_nonneg (by omega)]
  unfold corrected dayMillis
  split <;> omega

/-- A date that is read as its hundredth anniversary: the time until then is rounded down. -/
theorem corrected_years_future {birth : Date} {now n : ℤ}
    (hage : age birth now = n) (hn : 18 ≤ n ∧ n ≤ 99) :
    corrected (years (now - midnight (birth.anniversary 100))) = n ↔
      now - midnight (birth.anniversary n) ≤ dayMillis * birth.leapDays n 100 := by
  have hspec := (birth.completedYears_eq_iff (dateOf now) n).mp hage
  have hleap := birth.leapDays_range (show n ≤ 100 by omega)
  have hnext := birth.anniversary_le (show n + 1 ≤ 100 by omega)
  have hnow := dateOf_spec now
  have hsub : birth.leapDays n 100 =
      birth.anniversary 100 - birth.anniversary n - 365 * (100 - n) := rfl
  have hneg := years_neg (show 0 ≤ midnight (birth.anniversary 100) - now by
    unfold midnight dayMillis at *
    omega)
  rw [neg_sub] at hneg
  rw [hneg]
  unfold midnight corrected dayMillis at *
  split <;> omega

/-- What the clock reads from a Pesel that begins with six digits. -/
theorem parse_reading (now : Int64) (other : String → Option Int64) {pesel : String}
    {yy mm dd : ℤ} (hfields : fields pesel.toList = some (yy, mm, dd)) :
    (Clock.reading now other).parse pesel =
      some (.ofInt (DateFormat.parse (addYears now.toInt (-80)) yy mm dd)) := by
  show (match fields pesel.toList with | some (yy, mm, dd) => _ | none => _) = _
  rw [hfields]

/-- A Pesel that begins with a date. -/
theorem fields_pesel {birth : Date} {pesel : String} (h : pesel.toList.take 6 = yyMMdd birth) :
    fields pesel.toList = some (birth.year % 100, birth.month, birth.day) := by
  rw [← fields_take, h, fields_yyMMdd]

/-- The time since a birth that is between 18 and 99 years ago, as it is read. -/
theorem sinceBirth_range {birth : Date} {now : ℤ} (hage : 18 ≤ age birth now ∧ age birth now ≤ 99)
    {n : ℤ} (hn : 0 ≤ n ∧ n ≤ 100) :
    -2 ^ 60 ≤ now - midnight (birth.anniversary n) ∧
      now - midnight (birth.anniversary n) ≤ 2 ^ 60 := by
  have hspec := (birth.completedYears_eq_iff (dateOf now) (age birth now)).mp rfl
  have hzero := birth.leapDays_range hn.1
  have hnext := birth.leapDays_range (show 0 ≤ age birth now + 1 by omega)
  have hlast := birth.leapDays_range (show 0 ≤ age birth now by omega)
  have hnow := dateOf_spec now
  unfold Date.leapDays at hzero hnext hlast
  unfold midnight dayMillis at *
  omega

/-- **When `calcAgeFromPesel` is the age**, for every instant and every birth date that is
    between 18 and 99 completed years ago. -/
theorem calcAgeFromPesel_eq_iff (now : Int64) (other : String → Option Int64) (birth : Date)
    (pesel : String) (hpesel : pesel.toList.take 6 = yyMMdd birth)
    (hage : 18 ≤ age birth now.toInt ∧ age birth now.toInt ≤ 99) :
    (calcAgeFromPesel (.reading now other) (some pesel)).toInt = age birth now.toInt ↔
      CountsBirthdays birth now.toInt := by
  have hyear : (dateOf now.toInt).year - 100 ≤ birth.year ∧
      birth.year ≤ (dateOf now.toInt).year - 18 := by
    unfold age Date.completedYears at hage
    split at hage <;> omega
  have hstart := year_dateOf_addYears now.toInt (-80)
  have hparse := parse_reading now other (fields_pesel hpesel)
  rw [parse_date _ _ (by omega)] at hparse
  unfold CountsBirthdays
  by_cases hlate : midnight birth.number < addYears now.toInt (-80)
  · rw [if_pos hlate] at hparse
    rw [toInt_calcAgeFromPesel hparse (sinceBirth_range hage (by omega))]
    have hfuture := corrected_years_future rfl hage
    exact hfuture.trans ⟨fun h => ⟨fun hle => absurd hlate (not_lt.mpr hle), fun _ => h⟩,
      fun h => h.2 hlate⟩
  · rw [if_neg hlate, ← birth.anniversary_zero] at hparse
    rw [toInt_calcAgeFromPesel hparse (sinceBirth_range hage (by omega)), birth.anniversary_zero]
    have hpast := corrected_years_past rfl hage.1
    exact hpast.trans ⟨fun h => ⟨fun _ => h, fun hlt => absurd hlt hlate⟩,
      fun h => h.1 (not_lt.mp hlate)⟩

namespace Sample

/-- 8 June 2016, at midnight. -/
def now : Int64 := .ofInt (midnight (dayNumber 2016 6 8))

/-- A voter who turns 26 two days later. -/
def birth : Date := ⟨1990, 6, 10, by decide, by decide⟩

/-- A voter who has turned 86 in January. -/
def oldBirth : Date := ⟨1930, 1, 15, by decide, by decide⟩

end Sample

/-- **An age that is not the voter's**: 26 instead of 25, which is another age group, and 87
    instead of 86. -/
theorem calcAgeFromPesel_ne_age :
    ("90061012345".toList.take 6 = yyMMdd Sample.birth ∧
      age Sample.birth Sample.now.toInt = 25 ∧
      calcAgeFromPesel (.reading Sample.now fun _ => none) (some "90061012345") = 26) ∧
    ("30011512345".toList.take 6 = yyMMdd Sample.oldBirth ∧
      age Sample.oldBirth Sample.now.toInt = 86 ∧
      calcAgeFromPesel (.reading Sample.now fun _ => none) (some "30011512345") = 87) := by
  refine ⟨⟨by decide, by decide, ?_⟩, ⟨by decide, by decide, ?_⟩⟩ <;> decide +kernel

/-- The voter who turns 26 in two days. -/
theorem calcAgeFromPesel_eq_iff_sample :
    (calcAgeFromPesel (.reading Sample.now fun _ => none) (some "90061012345")).toInt =
        age Sample.birth Sample.now.toInt ↔
      CountsBirthdays Sample.birth Sample.now.toInt :=
  calcAgeFromPesel_eq_iff Sample.now _ Sample.birth _ (by decide) (by decide)

/-! ### Age groups -/

namespace Dictionary

/-- An age is within the bounds of a group. -/
def InGroup (d : Dictionary) (age ageId : Int32) : Prop :=
  ∃ bounds, d.ageGroupMap.lookup ageId = some bounds ∧ bounds.1 ≤ age ∧ age ≤ bounds.2

/-- No age is in two groups. -/
def GroupsDisjoint (d : Dictionary) : Prop :=
  ∀ age ageId ageId', d.InGroup age ageId → d.InGroup age ageId' → ageId = ageId'

/-- Every age from `lo` to `hi` is in a group. -/
def GroupsCover (d : Dictionary) (lo hi : Int32) : Prop :=
  ∀ age, lo ≤ age → age ≤ hi → ∃ ageId, d.InGroup age ageId

/-- An age is in exactly one group, and the search finds it in every map with the same
    entries. -/
def FindsOneGroup (d : Dictionary) (age : Int32) : Prop :=
  ∃ ageId, (∀ ageId', d.InGroup age ageId' ↔ ageId' = ageId) ∧
    ∀ d' : Dictionary, (∀ id, d'.ageGroupMap.lookup id = d.ageGroupMap.lookup id) →
      d'.getAgeIdBasedOnAge age = ageId

/-- The groups depend on the lookups alone. -/
theorem inGroup_congr {d d' : Dictionary}
    (h : ∀ ageId, d'.ageGroupMap.lookup ageId = d.ageGroupMap.lookup ageId) (age ageId : Int32) :
    d'.InGroup age ageId ↔ d.InGroup age ageId := by
  unfold InGroup
  rw [h]

/-- **The search finds the group of an age**, in whatever order it goes over the map, if
    there is exactly one. -/
theorem getAgeIdBasedOnAge_eq {d : Dictionary} {age ageId : Int32}
    (h : ∀ ageId', d.InGroup age ageId' ↔ ageId' = ageId) : d.getAgeIdBasedOnAge age = ageId := by
  unfold getAgeIdBasedOnAge
  cases hfind : d.ageGroupMap.entries.find? fun e => e.2.1 ≤ age ∧ age ≤ e.2.2 with
  | some e =>
    have hmem := List.mem_of_find?_eq_some hfind
    have hbounds := List.find?_some hfind
    rw [decide_eq_true_eq] at hbounds
    exact (h e.1).mp ⟨e.2, AList.mem_lookup_iff.mpr hmem, hbounds⟩
  | none =>
    obtain ⟨bounds, hlook, hbounds⟩ := (h ageId).mpr rfl
    have hmem := AList.mem_lookup_iff.mp hlook
    have hnot := List.find?_eq_none.mp hfind _ hmem
    rw [decide_eq_true_eq] at hnot
    exact absurd hbounds hnot

end Dictionary

/-- Whatever the digits are, they are read as an instant less than 82 years away. -/
theorem sinceReading_range (now : ℤ) {yy mm dd : ℤ} (hyy : 0 ≤ yy ∧ yy < 100)
    (hmm : 0 ≤ mm ∧ mm < 100) (hdd : 0 ≤ dd ∧ dd < 100) :
    -(365 * dayMillis * (81 + 1)) < now - DateFormat.parse (addYears now (-80)) yy mm dd ∧
      now - DateFormat.parse (addYears now (-80)) yy mm dd < 365 * dayMillis * (81 + 1) := by
  have hread := parse_range (addYears now (-80)) hyy hmm hdd
  have hnow := dateOf_spec now
  have hday := (dateOf now).number_range
  -- the hundred years begin 80 years before this one
  have hpast := newYear_add ((dateOf now).year + -80) (show (0 : ℤ) ≤ 81 by omega)
  have hfuture := newYear_add (dateOf now).year (show (0 : ℤ) ≤ 30 by omega)
  rw [show (dateOf now).year + -80 + 81 = (dateOf now).year + 1 by omega] at hpast
  rw [year_dateOf_addYears,
    show (dateOf now).year + -80 + 110 = (dateOf now).year + 30 by omega] at hread
  unfold midnight dayMillis at *
  omega

/-- **A Pesel of digits has an age from 18 to 117**, whatever its month and day. -/
theorem calcAgeFromPesel_range (now : Int64) (other : String → Option Int64) {pesel : String}
    (hlen : 6 ≤ pesel.length) (hdigit : ∀ c ∈ pesel.toList.take 6, c.isDigit = true) :
    18 ≤ (calcAgeFromPesel (.reading now other) (some pesel)).toInt ∧
      (calcAgeFromPesel (.reading now other) (some pesel)).toInt ≤ 117 := by
  rw [← String.length_toList] at hlen
  obtain ⟨yy, mm, dd, hfields, hyy, hmm, hdd⟩ := fields_of_isDigit hlen hdigit
  have hdiff := sinceReading_range now.toInt hyy hmm hdd
  have hyears := years_range hdiff
  have hval : (calcAgeFromPesel (.reading now other) (some pesel)).toInt =
      corrected (years (now.toInt - DateFormat.parse (addYears now.toInt (-80)) yy mm dd)) := by
    apply toInt_calcAgeFromPesel (parse_reading now other hfields)
    unfold dayMillis at hdiff
    show -2 ^ 60 ≤ now.toInt - _ ∧ now.toInt - _ ≤ 2 ^ 60
    omega
  rw [hval]
  exact corrected_range (by omega)

/-- **Every voter with a numeric Pesel is in exactly one age group**, for every clock and
    every dictionary with disjoint groups for the ages from 18 to 117. -/
theorem ageId_unique (now : Int64) (other : String → Option Int64) (pesel : String)
    (hlen : 6 ≤ pesel.length) (hdigit : ∀ c ∈ pesel.toList.take 6, c.isDigit = true)
    (d : Dictionary) (hdisjoint : d.GroupsDisjoint) (hcover : d.GroupsCover 18 117) :
    (18 ≤ calcAgeFromPesel (.reading now other) (some pesel) ∧
        calcAgeFromPesel (.reading now other) (some pesel) ≤ 117) ∧
      d.FindsOneGroup (calcAgeFromPesel (.reading now other) (some pesel)) := by
  have hrange := calcAgeFromPesel_range now other hlen hdigit
  generalize calcAgeFromPesel (.reading now other) (some pesel) = age at hrange ⊢
  have hage : 18 ≤ age ∧ age ≤ 117 := by
    rw [Int32.le_iff_toInt_le, Int32.le_iff_toInt_le]
    exact hrange
  refine ⟨hage, ?_⟩
  obtain ⟨ageId, hgroup⟩ := hcover age hage.1 hage.2
  have hiff : ∀ ageId', d.InGroup age ageId' ↔ ageId' = ageId := by
    intro ageId'
    constructor
    · intro h
      exact hdisjoint age ageId' ageId h hgroup
    · intro h
      rw [h]
      exact hgroup
  refine ⟨ageId, hiff, ?_⟩
  intro d' hd'
  apply Dictionary.getAgeIdBasedOnAge_eq
  intro ageId'
  rw [Dictionary.inGroup_congr hd']
  exact hiff ageId'

namespace Sample

/-- The rows of `d_age`. -/
def ages : Dictionary where
  ageGroupMap := AList.insert 1 (18, 25) (AList.insert 2 (26, 40)
    (AList.insert 3 (41, 60) (AList.insert 4 (61, 200) ∅)))

theorem inGroup_ages {age ageId : Int32} : ages.InGroup age ageId ↔
    (ageId = 1 ∧ 18 ≤ age ∧ age ≤ 25) ∨ (ageId = 2 ∧ 26 ≤ age ∧ age ≤ 40) ∨
      (ageId = 3 ∧ 41 ≤ age ∧ age ≤ 60) ∨ (ageId = 4 ∧ 61 ≤ age ∧ age ≤ 200) := by
  unfold Dictionary.InGroup ages
  simp only [Table.lookup_insert_eq, AList.lookup_empty]
  constructor
  · rintro ⟨bounds, hlook, hbounds⟩
    split_ifs at hlook with h₁ h₂ h₃ h₄
    · obtain rfl := Option.some.inj hlook
      exact .inl ⟨h₁, hbounds⟩
    · obtain rfl := Option.some.inj hlook
      exact .inr (.inl ⟨h₂, hbounds⟩)
    · obtain rfl := Option.some.inj hlook
      exact .inr (.inr (.inl ⟨h₃, hbounds⟩))
    · obtain rfl := Option.some.inj hlook
      exact .inr (.inr (.inr ⟨h₄, hbounds⟩))
  · rintro (⟨rfl, h⟩ | ⟨rfl, h⟩ | ⟨rfl, h⟩ | ⟨rfl, h⟩) <;> exact ⟨_, rfl, h⟩

theorem groupsDisjoint_ages : ages.GroupsDisjoint := by
  intro age ageId ageId' h h'
  rw [inGroup_ages] at h h'
  grind

theorem groupsCover_ages : ages.GroupsCover 18 117 := by
  intro age hlo hhi
  simp only [inGroup_ages]
  grind

end Sample

/-- A Pesel with a month and a day that do not exist. -/
theorem ageId_unique_sample :
    (18 ≤ calcAgeFromPesel (.reading Sample.now fun _ => none) (some "90990012345") ∧
        calcAgeFromPesel (.reading Sample.now fun _ => none) (some "90990012345") ≤ 117) ∧
      Sample.ages.FindsOneGroup
        (calcAgeFromPesel (.reading Sample.now fun _ => none) (some "90990012345")) := by
  have hdigit : ("90990012345".toList.take 6).all Char.isDigit = true := by decide
  exact ageId_unique Sample.now _ "90990012345" (by decide) (List.all_eq_true.mp hdigit)
    Sample.ages Sample.groupsDisjoint_ages Sample.groupsCover_ages

end RsoVoting.Aggregator
