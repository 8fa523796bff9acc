import RsoVoting.Lib.Shares
import Mathlib.Algebra.BigOperators.Ring.Finset

namespace RsoVoting.Web2py

open RsoVoting.Shares

/-!
# The percentage charts

Three actions of the controller turn the counts of a query into percentages.  Each goes over
the rows twice: once for the labels, the counts and their sum, and once for the quotients.
The candidates and the sexes are divided as integers, the parties as floats that are rounded;
the floats are read as exact rationals here.

* `Counts` — what the first loop collects;
* `integerPercent` / `roundedPercent` — the two divisions, `none` for a `ZeroDivisionError`;
* `getCandidatePercentageData` / `getSexPercentageData` / `getPartyPercentageData` — the
  actions, on the rows of their query;
* `FloorShares` / `NearestShares` — what may be said of the percentages;
* `percentages_within_rounding` — and it holds of the three actions.
-/

/-- A row of `getCandidatePercentageData`: `name, lastname, votes_sum`. -/
structure CandidateRow where
  name : String
  lastname : String
  votesSum : ℤ
deriving DecidableEq, Repr

/-- A row of the other two queries: the name of a party and `votes_sum`. -/
structure PartyRow where
  name : String
  votesSum : ℤ
deriving DecidableEq, Repr

/-- What an action returns. -/
structure PercentageData where
  labels : List String
  votes : List ℤ
deriving DecidableEq, Repr

/-! ### The two loops -/

/-- `labels`, `numbers` and `total_votes_sum`. -/
structure Counts where
  labels : List String := []
  numbers : List ℤ := []
  totalVotesSum : ℤ := 0

/-- The body of the first loop. -/
def Counts.add (counts : Counts) (row : String × ℤ) : Counts where
  labels := counts.labels ++ [row.1]
  numbers := counts.numbers ++ [row.2]
  totalVotesSum := counts.totalVotesSum + row.2

/-- `number*100/total_votes_sum`, which Python 2 rounds down. -/
def integerPercent (totalVotesSum number : ℤ) : Option ℤ :=
  if totalVotesSum = 0 then none else some ((number * 100).fdiv totalVotesSum)

/-- `int(round(float(num)*100/float(total_votes_sum)))`. -/
def roundedPercent (totalVotesSum num : ℤ) : Option ℤ :=
  if totalVotesSum = 0 then none
  else some (roundHalfAway ((num : ℚ) * 100 / (totalVotesSum : ℚ)))

/-- The two loops, with the label and the count of every row. -/
def percentageData (percent : ℤ → ℤ → Option ℤ) (rows : List (String × ℤ)) :
    Option PercentageData := do
  let counts := rows.foldl Counts.add {}
  let numbersInPercents ← counts.numbers.mapM (percent counts.totalVotesSum)
  return { labels := counts.labels, votes := numbersInPercents }

/-- `getCandidatePercentageData()`. -/
def getCandidatePercentageData (results : List CandidateRow) : Option PercentageData :=
  percentageData integerPercent
    (results.map fun row => (row.lastname ++ ", " ++ row.name, row.votesSum))

/-- `getSexPercentageData()`. -/
def getSexPercentageData (results : List PartyRow) : Option PercentageData :=
  percentageData integerPercent (results.map fun row => (row.name, row.votesSum))

/-- `getPartyPercentageData()`. -/
def getPartyPercentageData (results : List PartyRow) : Option PercentageData :=
  percentageData roundedPercent (results.map fun row => (row.name, row.votesSum))

/-! ### What the percentages are -/

/-- The exact percentage of a count. -/
def exactPercent (numbers : List ℤ) (number : ℤ) : ℚ := (number : ℚ) * 100 / (numbers.sum : ℚ)

/-- Percentages that have been rounded down: each is between 0 and 100 and less than 1 below
    the exact one, `k` of them lose at most `k - 1` together, and they respect the order of
    the counts. -/
structure FloorShares (numbers votes : List ℤ) : Prop where
  length : votes.length = numbers.length
  range : ∀ v ∈ votes, 0 ≤ v ∧ v ≤ 100
  short : ∀ p ∈ numbers.zip votes,
    (p.2 : ℚ) ≤ exactPercent numbers p.1 ∧ exactPercent numbers p.1 - p.2 < 1
  sum_ge : 100 - ((numbers.length : ℤ) - 1) ≤ votes.sum
  sum_le : votes.sum ≤ 100
  order : ∀ p ∈ numbers.zip votes, ∀ q ∈ numbers.zip votes, p.1 ≤ q.1 → p.2 ≤ q.2

/-- Percentages that have been rounded to the nearest integer: each is off by at most 1/2,
    `k` of them by at most `k/2` together, and they respect the order of the counts. -/
structure NearestShares (numbers votes : List ℤ) : Prop where
  length : votes.length = numbers.length
  near : ∀ p ∈ numbers.zip votes, |(p.2 : ℚ) - exactPercent numbers p.1| ≤ 1 / 2
  sum_near : |(votes.sum : ℚ) - 100| ≤ numbers.length / 2
  order : ∀ p ∈ numbers.zip votes, ∀ q ∈ numbers.zip votes, p.1 ≤ q.1 → p.2 ≤ q.2

/-! ### The loops in closed form -/

/-- The first loop collects the labels, the counts and the sum. -/
theorem foldl_add (rows : List (String × ℤ)) (counts : Counts) :
    rows.foldl Counts.add counts =
      { labels := counts.labels ++ rows.map Prod.fst
        numbers := counts.numbers ++ rows.map Prod.snd
        totalVotesSum := counts.totalVotesSum + (rows.map Prod.snd).sum } := by
  induction rows generalizing counts with
  | nil => simp
  | cons row rows ih =>
    rw [List.foldl_cons, ih]
    simp [Counts.add, Int.add_assoc]

/-- The second loop goes through if none of its divisions fails. -/
theorem mapM_some {α β : Type} {f : α → Option β} {g : α → β} {xs : List α}
    (h : ∀ x ∈ xs, f x = some (g x)) : xs.mapM f = some (xs.map g) := by
  induction xs with
  | nil => rfl
  | cons x xs ih =>
    have hxs := ih fun y hy => h y (List.mem_cons_of_mem _ hy)
    simp [List.mapM_cons, h x (List.mem_cons_self ..), hxs]

/-- The two loops together, for a division that does not fail. -/
theorem percentageData_eq {percent : ℤ → ℤ → Option ℤ} {rows : List (String × ℤ)} {g : ℤ → ℤ}
    (h : ∀ number, percent (rows.map Prod.snd).sum number = some (g number)) :
    percentageData percent rows =
      some { labels := rows.map Prod.fst, votes := (rows.map Prod.snd).map g } := by
  have hmap : (rows.map Prod.snd).mapM (percent (rows.map Prod.snd).sum) =
      some ((rows.map Prod.snd).map g) := mapM_some fun number _ => h number
  unfold percentageData
  rw [foldl_add]
  simp only [List.nil_append, Int.zero_add]
  rw [hmap]
  rfl

/-! ### Both divisions as roundings of the exact percentage -/

/-- Python's integer division rounds the exact quotient down. -/
theorem fdiv_eq_floor {numbers : List ℤ} (h : 0 < numbers.sum) (number : ℤ) :
    (number * 100).fdiv numbers.sum = ⌊exactPercent numbers number⌋ := by
  obtain ⟨total, htotal⟩ := Int.eq_ofNat_of_zero_le h.le
  rw [exactPercent, htotal, Int.fdiv_eq_ediv_of_nonneg _ (Int.natCast_nonneg total),
    ← Rat.floor_intCast_div_natCast]
  push_cast
  rfl

/-- A pair of a count and what has been made of it. -/
theorem zip_map_self {g : ℤ → ℤ} {numbers : List ℤ} {p : ℤ × ℤ}
    (h : p ∈ numbers.zip (numbers.map g)) : p.1 ∈ numbers ∧ p.2 = g p.1 := by
  have hmap : numbers.zip (numbers.map g) = numbers.map fun n => (n, g n) := by
    simpa using (List.zip_map' (f := id) (g := g) (l := numbers))
  rw [hmap] at h
  obtain ⟨n, hn, rfl⟩ := List.mem_map.mp h
  exact ⟨hn, rfl⟩

section Shares

variable {numbers : List ℤ} (hne : numbers ≠ []) (hpos : ∀ number ∈ numbers, 0 < number)

/-- The exact percentages, as the shares of 100. -/
theorem exactPercent_eq (numbers : List ℤ) (number : ℤ) :
    exactPercent numbers number =
      exactShare 100 (numbers.map (Int.cast : ℤ → ℚ)).sum (number : ℚ) := by
  rw [exactShare, exactPercent, Int.cast_list_sum]

include hne hpos

theorem sum_pos : 0 < numbers.sum := List.sum_pos _ hpos hne

/-- **The exact percentages add up to 100.** -/
theorem sum_exactPercent : (numbers.map (exactPercent numbers)).sum = 100 := by
  have hsum : (numbers.map (Int.cast : ℤ → ℚ)).sum ≠ 0 := by
    rw [← Int.cast_list_sum]
    exact_mod_cast (sum_pos hne hpos).ne'
  rw [← sum_exactShare 100 hsum, List.map_map]
  apply congrArg List.sum
  apply List.map_congr_left
  intro number _
  exact exactPercent_eq numbers number

/-- A count is at most the sum of all. -/
theorem exactPercent_range {number : ℤ} (hmem : number ∈ numbers) :
    0 ≤ exactPercent numbers number ∧ exactPercent numbers number ≤ 100 := by
  have hsum : (0 : ℚ) < (numbers.sum : ℚ) := by exact_mod_cast sum_pos hne hpos
  have hnumber : (0 : ℚ) ≤ (number : ℚ) := by exact_mod_cast (hpos number hmem).le
  have hle : (number : ℚ) ≤ (numbers.sum : ℚ) := by
    exact_mod_cast List.single_le_sum (fun n hn => (hpos n hn).le) number hmem
  constructor
  · exact exactShare_nonneg (by norm_num) hsum.le hnumber
  · exact exactShare_le_pool (by norm_num) hsum hle

theorem exactPercent_mono {number number' : ℤ} (h : number ≤ number') :
    exactPercent numbers number ≤ exactPercent numbers number' := by
  have hsum : (0 : ℚ) < (numbers.sum : ℚ) := by exact_mod_cast sum_pos hne hpos
  apply exactShare_le_exactShare (by norm_num) hsum.le
  exact_mod_cast h

/-! ### The two roundings -/

theorem floorShares :
    FloorShares numbers (numbers.map fun n => ⌊exactPercent numbers n⌋) := by
  have hsum := sum_exactPercent hne hpos
  have hmap : numbers.map (fun n => ⌊exactPercent numbers n⌋) =
      (numbers.map (exactPercent numbers)).map Int.floor := by
    rw [List.map_map]
    rfl
  constructor
  case length => exact List.length_map _
  case range =>
    intro v hv
    obtain ⟨n, hn, rfl⟩ := List.mem_map.mp hv
    have hrange := exactPercent_range hne hpos hn
    constructor
    · exact Int.floor_nonneg.mpr hrange.1
    · have hle := (Int.floor_le _).trans hrange.2
      exact_mod_cast hle
  case short =>
    intro p hp
    have hp2 := (zip_map_self hp).2
    rw [hp2]
    constructor
    · exact Int.floor_le _
    · have hlt := Int.lt_floor_add_one (exactPercent numbers p.1)
      linarith
  case sum_ge =>
    -- the sum is an integer above `100 - k`
    have hne' : numbers.map (exactPercent numbers) ≠ [] := by simpa
    have hlt := lt_sum_floor_add_length hne'
    rw [hsum, List.length_map, ← hmap] at hlt
    have hint : (100 : ℤ) < (numbers.map fun n => ⌊exactPercent numbers n⌋).sum +
        numbers.length := by exact_mod_cast hlt
    omega
  case sum_le =>
    have hle := sum_floor_le (numbers.map (exactPercent numbers))
    rw [hsum, ← hmap] at hle
    exact_mod_cast hle
  case order =>
    intro p hp q hq hpq
    rw [(zip_map_self hp).2, (zip_map_self hq).2]
    apply Int.floor_le_floor
    exact exactPercent_mono hne hpos hpq

theorem nearestShares :
    NearestShares numbers (numbers.map fun n => roundHalfAway (exactPercent numbers n)) := by
  have hmap : numbers.map (fun n => roundHalfAway (exactPercent numbers n)) =
      (numbers.map (exactPercent numbers)).map roundHalfAway := by
    rw [List.map_map]
    rfl
  constructor
  case length => exact List.length_map _
  case near =>
    intro p hp
    rw [(zip_map_self hp).2]
    exact abs_roundHalfAway_sub_le _
  case sum_near =>
    have hle := abs_sum_sub_le (abs_roundHalfAway_sub_le (K := ℚ))
      (numbers.map (exactPercent numbers))
    rw [sum_exactPercent hne hpos, ← hmap, List.length_map] at hle
    linarith
  case order =>
    intro p hp q hq hpq
    rw [(zip_map_self hp).2, (zip_map_self hq).2]
    apply roundHalfAway_le
    exact exactPercent_mono hne hpos hpq

end Shares

/-! ### The actions -/

section Actions

variable {rows : List (String × ℤ)} (hne : rows ≠ []) (hpos : ∀ row ∈ rows, 0 < row.2)

include hne hpos

/-- Dividing the counts of some rows as integers. -/
theorem integerPercent_rows : ∃ data, percentageData integerPercent rows = some data ∧
    data.labels = rows.map Prod.fst ∧ FloorShares (rows.map Prod.snd) data.votes := by
  have hne' : rows.map Prod.snd ≠ [] := by simpa using hne
  have hpos' : ∀ number ∈ rows.map Prod.snd, 0 < number :=
    List.forall_mem_map.mpr hpos
  have hsum := sum_pos hne' hpos'
  refine ⟨_, percentageData_eq fun number => ?_, rfl, floorShares hne' hpos'⟩
  rw [integerPercent, if_neg hsum.ne', fdiv_eq_floor hsum]

/-- Dividing them as floats. -/
theorem roundedPercent_rows : ∃ data, percentageData roundedPercent rows = some data ∧
    data.labels = rows.map Prod.fst ∧ NearestShares (rows.map Prod.snd) data.votes := by
  have hne' : rows.map Prod.snd ≠ [] := by simpa using hne
  have hpos' : ∀ number ∈ rows.map Prod.snd, 0 < number :=
    List.forall_mem_map.mpr hpos
  have hsum := sum_pos hne' hpos'
  refine ⟨_, percentageData_eq fun number => ?_, rfl, nearestShares hne' hpos'⟩
  rw [roundedPercent, if_neg hsum.ne']
  rfl

end Actions

/-- **The percentages stay within their rounding error**, for every result of the query with
    positive counts, of any length. -/
theorem percentages_within_rounding :
    (∀ results : List CandidateRow, results ≠ [] → (∀ row ∈ results, 0 < row.votesSum) →
      ∃ data, getCandidatePercentageData results = some data ∧
        FloorShares (results.map CandidateRow.votesSum) data.votes) ∧
    (∀ results : List PartyRow, results ≠ [] → (∀ row ∈ results, 0 < row.votesSum) →
      (∃ data, getSexPercentageData results = some data ∧
        FloorShares (results.map PartyRow.votesSum) data.votes) ∧
      ∃ data, getPartyPercentageData results = some data ∧
        NearestShares (results.map PartyRow.votesSum) data.votes) := by
  constructor
  · intro results hne hpos
    have hne' : (results.map fun row => (row.lastname ++ ", " ++ row.name, row.votesSum)) ≠ [] :=
      by simpa
    obtain ⟨data, hdata, -, hshares⟩ := integerPercent_rows hne' (List.forall_mem_map.mpr hpos)
    rw [List.map_map] at hshares
    exact ⟨data, hdata, hshares⟩
  · intro results hne hpos
    have hne' : (results.map fun row => (row.name, row.votesSum)) ≠ [] := by simpa
    have hpos' : ∀ row ∈ results.map (fun row => (row.name, row.votesSum)), 0 < row.2 :=
      List.forall_mem_map.mpr hpos
    constructor
    · obtain ⟨data, hdata, -, hshares⟩ := integerPercent_rows hne' hpos'
      rw [List.map_map] at hshares
      exact ⟨data, hdata, hshares⟩
    · obtain ⟨data, hdata, -, hshares⟩ := roundedPercent_rows hne' hpos'
      rw [List.map_map] at hshares
      exact ⟨data, hdata, hshares⟩

namespace Sample

/-- Three candidates with the same number of votes: each gets 33 percent. -/
def candidateRows : List CandidateRow :=
  [⟨"Anna", "Kowalska", 1⟩, ⟨"Jan", "Nowak", 1⟩, ⟨"Ewa", "Lis", 1⟩]

/-- Two parties whose percentages both end in a half. -/
def partyRows : List PartyRow := [⟨"A", 1⟩, ⟨"B", 7⟩]

example : (getCandidatePercentageData candidateRows).map PercentageData.votes =
    some [33, 33, 33] := by decide

end Sample

/-- Three candidates with one vote each, and two parties with one and with seven votes. -/
theorem percentages_within_rounding_sample :
    (∃ data, getCandidatePercentageData Sample.candidateRows = some data ∧
      FloorShares (Sample.candidateRows.map CandidateRow.votesSum) data.votes) ∧
    (∃ data, getSexPercentageData Sample.partyRows = some data ∧
      FloorShares (Sample.partyRows.map PartyRow.votesSum) data.votes) ∧
    ∃ data, getPartyPercentageData Sample.partyRows = some data ∧
      NearestShares (Sample.partyRows.map PartyRow.votesSum) data.votes := by
  have hcandidates : ∀ row ∈ Sample.candidateRows, 0 < row.votesSum := by decide
  have hparties : ∀ row ∈ Sample.partyRows, 0 < row.votesSum := by decide
  constructor
  · exact percentages_within_rounding.1 _ (by decide) hcandidates
  · exact percentages_within_rounding.2 _ (by decide) hparties

end RsoVoting.Web2py
