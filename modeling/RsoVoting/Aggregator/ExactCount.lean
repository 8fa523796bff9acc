import RsoVoting.Aggregator.Statistics

namespace RsoVoting.Aggregator

open RsoVoting

/-!
# The statistics are exact

`calculateAll` goes once over the votes and counts each of them in six maps.  This file says
what the maps contain at the end, for any initial contents, as long as no counter leaves the
range of a Java `int`:

* `Statistics.value` — an entry, 0 if it is absent;
* `Statistics.Totals` / `Statistics.Marginals` — each map sums to the number of votes, and
  for one party the maps sum to the same number;
* `calculateAll_exact` — every entry is its initial value and the number of votes of its
  class, no other entry appears, the order of the votes makes no difference, and maps that
  were empty satisfy both identities.
-/

/-- The party that a candidate counts for: the dictionary's, 1 if it is missing there. -/
def Dictionary.partyOf (d : Dictionary) (candidateId : Int32) : Int32 :=
  (d.dictCandidatesMap.lookup candidateId).getD 1

theorem Dictionary.partyId_eq (d : Dictionary) (vi : VoteInfo) :
    d.partyId vi = d.partyOf vi.vote := by
  unfold partyId partyOf
  cases d.dictCandidatesMap.lookup vi.vote <;> rfl

namespace Statistics

/-- The value of an entry, 0 if it is absent. -/
def value (s : Statistics) (k : ResultKey) : ℤ := (s.lookup k).elim 0 Int32.toInt

/-- Each of the six maps sums to `n`. -/
def Totals (s : Statistics) (n : ℤ) : Prop :=
  Table.sum (fun _ => true) Int32.toInt s.resPartyCandidatesMap = n ∧
  Table.sum (fun _ => true) Int32.toInt s.resPartyPercentMap = n ∧
  Table.sum (fun _ => true) Int32.toInt s.resPartyAgeMap = n ∧
  Table.sum (fun _ => true) Int32.toInt s.resPartyEducationMap = n ∧
  Table.sum (fun _ => true) Int32.toInt s.resPartySexMap = n ∧
  Table.sum (fun _ => true) Int32.toInt s.resPartyConstituencyMap = n

/-- The rows of party `p` in four of the maps, and the candidates of the party, sum to its
    entry in `resPartyPercentMap`. -/
def Marginals (s : Statistics) (p : Int32) : Prop :=
  Table.sum (fun k => k.1 = p) Int32.toInt s.resPartyAgeMap = s.value (.percent p) ∧
  Table.sum (fun k => k.1 = p) Int32.toInt s.resPartyEducationMap = s.value (.percent p) ∧
  Table.sum (fun k => k.1 = p) Int32.toInt s.resPartySexMap = s.value (.percent p) ∧
  Table.sum (fun k => k.1 = p) Int32.toInt s.resPartyConstituencyMap = s.value (.percent p) ∧
  Table.sum (fun c => s.partyOf c = p) Int32.toInt s.resPartyCandidatesMap = s.value (.percent p)

end Statistics

/-! ### Sums over one map -/

/-- The sum over a map that counts what is in a list is the number of elements with such a
    key. -/
theorem sum_of_counted {K α : Type} [DecidableEq K] {res : Table K Int32} {xs : List α}
    (key : α → K) (hres : ∀ k, res.lookup k = counted (xs.countP fun x => key x = k) none)
    (hsize : ∀ k, (xs.countP fun x => key x = k) < 2 ^ 31) (p : K → Bool) :
    Table.sum p Int32.toInt res = xs.countP fun x => p (key x) :=
  Table.sum_of_lookup_tally (q := fun _ => true) key xs hres
    (fun k _ hn => toInt_iterate_one (Nat.lt_of_le_of_lt hn (hsize k))) p

section

variable {clock : Option String → Clock} {map : VoteMap} {s : Statistics}

/-- The sum over a map that was empty is the number of votes with such a key. -/
theorem sum_counted {K : Type} [DecidableEq K] {res : Table K Int32}
    (key : (Sigma fun _ : Option String => VoteInfo) → K)
    (hres : ∀ k, res.lookup k = counted (map.entries.countP fun e => key e = k) none)
    (hsize : ∀ k, (map.entries.countP fun e => key e = k) < 2 ^ 31) (p : K → Bool) :
    Table.sum p Int32.toInt res = map.entries.countP fun e => p (key e) :=
  sum_of_counted key hres hsize p

/-- An entry of empty statistics becomes the number of votes of its class. -/
theorem lookup_calculateAll_of_empty (hempty : ∀ k, s.lookup k = none) (k : ResultKey) :
    (s.calculateAll clock map).lookup k =
      counted (map.classCount s.toDictionary clock k) none := by
  rw [Statistics.lookup_calculateAll, hempty]

/-- The sums over each map of statistics that started empty. -/
theorem sums_of_empty (hempty : ∀ k, s.lookup k = none)
    (hsize : ∀ k, map.classCount s.toDictionary clock k < 2 ^ 31) :
    (s.calculateAll clock map).Totals map.entries.length ∧
      ∀ p, (s.calculateAll clock map).Marginals p := by
  have hlook : ∀ k, (s.calculateAll clock map).lookup k =
      counted (map.classCount s.toDictionary clock k) none := lookup_calculateAll_of_empty hempty
  -- the key of each map, as a function of the vote
  have hcand := sum_counted (fun e => e.2.vote) (fun c => hlook (.candidate c))
    fun c => hsize (.candidate c)
  have hperc := sum_counted (fun e => s.partyId e.2) (fun p => hlook (.percent p))
    fun p => hsize (.percent p)
  have hage := sum_counted (fun e => (s.partyId e.2, s.ageId (clock e.1) e.2))
    (fun k => hlook (.age k.1 k.2)) fun k => hsize (.age k.1 k.2)
  have hedu := sum_counted (fun e => (s.partyId e.2, e.2.education))
    (fun k => hlook (.education k.1 k.2)) fun k => hsize (.education k.1 k.2)
  have hsex := sum_counted (fun e => (s.partyId e.2, e.2.gender))
    (fun k => hlook (.sex k.1 k.2)) fun k => hsize (.sex k.1 k.2)
  have hcons := sum_counted (fun e => (s.partyId e.2, e.2.votingArea))
    (fun k => hlook (.constituency k.1 k.2)) fun k => hsize (.constituency k.1 k.2)
  have hall : map.entries.countP (fun _ => true) = map.entries.length := by
    rw [List.countP_true]
  refine ⟨⟨?_, ?_, ?_, ?_, ?_, ?_⟩, fun p => ?_⟩
  · rw [hcand, hall]
  · rw [hperc, hall]
  · rw [hage, hall]
  · rw [hedu, hall]
  · rw [hsex, hall]
  · rw [hcons, hall]
  · -- all five count the votes of the party
    have hvalue : (s.calculateAll clock map).value (.percent p) =
        map.entries.countP fun e => s.partyId e.2 = p := by
      rw [Statistics.value, hlook, toInt_counted_none (hsize _)]
      rfl
    have hparty : (s.calculateAll clock map).toDictionary = s.toDictionary :=
      Statistics.calculateAll_toDictionary clock map s
    unfold Statistics.Marginals
    rw [hvalue, hage, hedu, hsex, hcons, hparty, hcand]
    refine ⟨rfl, rfl, rfl, rfl, ?_⟩
    simp only [Dictionary.partyId_eq]

end

/-! ### The loop is an exact count -/

/-- **The count is exact.**  Whatever the maps contain at first, and in whichever order the
    votes come, every entry becomes its initial value and the number of votes of its class,
    and no entry appears without a vote.  Maps that were empty then all sum to the number of
    votes, and for every party to its entry in `resPartyPercentMap`. -/
theorem calculateAll_exact (clock : Option String → Clock) (map : VoteMap) (s : Statistics)
    (hsize : ∀ k, s.value k + map.classCount s.toDictionary clock k < 2 ^ 31) :
    let result := s.calculateAll clock map
    (∀ k, result.value k = s.value k + map.classCount s.toDictionary clock k) ∧
    (∀ k, (result.lookup k).isSome = true ↔
      (s.lookup k).isSome = true ∨ 0 < map.classCount s.toDictionary clock k) ∧
    (∀ map' : VoteMap, (∀ r, map'.lookup r = map.lookup r) →
      ∀ k, (s.calculateAll clock map').lookup k = result.lookup k) ∧
    ((∀ k, s.lookup k = none) →
      result.Totals map.entries.length ∧ ∀ p, result.Marginals p) := by
  intro result
  refine ⟨fun k => ?_, fun k => ?_, fun map' h k => ?_, fun hempty => ?_⟩
  · show ((s.calculateAll clock map).lookup k).elim 0 Int32.toInt = _
    rw [Statistics.lookup_calculateAll]
    exact toInt_counted (hsize k)
  · show ((s.calculateAll clock map).lookup k).isSome = true ↔ _
    rw [Statistics.lookup_calculateAll]
    exact isSome_counted
  · exact Statistics.lookup_calculateAll_congr h clock s k
  · refine sums_of_empty hempty fun k => ?_
    have hk := hsize k
    rw [Statistics.value, hempty, Option.elim_none] at hk
    omega

namespace Sample

/-- Two votes for candidate 7 and one for candidate 9. -/
def threeVotes : VoteMap :=
  AList.insert (some "a")
    { pesel := some "70010112345", vote := 7, votingArea := 1, gender := 1,
      education := 2, rowId := some "a" }
  (AList.insert (some "b")
    { pesel := some "80010112345", vote := 7, votingArea := 3, gender := 1,
      education := 2, rowId := some "b" }
  (AList.insert (some "c")
    { pesel := none, vote := 9, votingArea := 1, gender := 2,
      education := 2, rowId := some "c" } ∅))

/-- Loaded dictionaries, in which candidate 9 is missing. -/
def loadedDictionary : Dictionary where
  dictCandidatesMap := AList.insert 7 2 (AList.insert 8 1 ∅)
  ageGroupMap := AList.insert 1 (18, 25) (AList.insert 4 (61, 200) ∅)

/-- The maps after an earlier vote for candidate 7. -/
def earlierStatistics : Statistics where
  toDictionary := loadedDictionary
  resPartyCandidatesMap := AList.insert 7 1 ∅
  resPartyPercentMap := AList.insert 2 1 ∅
  resPartyAgeMap := AList.insert (2, 4) 1 ∅
  resPartyEducationMap := AList.insert (2, 2) 1 ∅
  resPartySexMap := AList.insert (2, 2) 1 ∅
  resPartyConstituencyMap := AList.insert (2, 1) 1 ∅

theorem earlierStatistics_value_le (k : ResultKey) : earlierStatistics.value k ≤ 1 := by
  cases k <;>
    · simp only [Statistics.value, Statistics.lookup, earlierStatistics, Table.lookup_insert_eq]
      split
      · decide
      · simp

theorem threeVotes_classCount_le (k : ResultKey) :
    threeVotes.classCount loadedDictionary clock k ≤ 3 :=
  List.countP_le_length

end Sample

/-- Three votes, added to what an earlier vote has left in the maps, and counted in empty
    ones.  The candidate without a party counts for party 1. -/
theorem calculateAll_exact_sample :
    let result := Sample.earlierStatistics.calculateAll Sample.clock Sample.threeVotes
    let fresh := Statistics.calculateAll Sample.clock Sample.threeVotes
      { toDictionary := Sample.loadedDictionary }
    result.value (.candidate 7) = 3 ∧ result.value (.percent 2) = 3 ∧
    result.value (.percent 1) = 1 ∧ result.value (.age 2 4) = 3 ∧
    result.value (.sex 2 1) = 2 ∧ result.value (.sex 2 2) = 1 ∧
    (result.lookup (.candidate 8)).isSome = false ∧
    fresh.Totals 3 ∧ ∀ p, fresh.Marginals p := by
  intro result fresh
  obtain ⟨hvalue, hsome, -, -⟩ := calculateAll_exact Sample.clock Sample.threeVotes
    Sample.earlierStatistics fun k => by
      have hvalue := Sample.earlierStatistics_value_le k
      have hcount := Sample.threeVotes_classCount_le k
      show _ + ((Sample.threeVotes.classCount Sample.loadedDictionary Sample.clock k : ℕ) : ℤ) < _
      omega
  obtain ⟨-, -, -, hsums⟩ := calculateAll_exact Sample.clock Sample.threeVotes
    { toDictionary := Sample.loadedDictionary } fun k => by
      have hcount := Sample.threeVotes_classCount_le k
      have hzero : Statistics.value { toDictionary := Sample.loadedDictionary } k = 0 := by
        rw [Statistics.value, Statistics.lookup_new, Option.elim_none]
      show _ + ((Sample.threeVotes.classCount Sample.loadedDictionary Sample.clock k : ℕ) : ℤ) < _
      omega
  refine ⟨(hvalue _).trans ?_, (hvalue _).trans ?_, (hvalue _).trans ?_, (hvalue _).trans ?_,
    (hvalue _).trans ?_, (hvalue _).trans ?_, ?_, hsums (Statistics.lookup_new _)⟩
  · decide
  · decide
  · decide
  · decide
  · decide
  · decide
  · rw [← Bool.not_eq_true, hsome]
    decide

end RsoVoting.Aggregator
