import RsoVoting.Lib.Table

namespace RsoVoting.Aggregator

open RsoVoting

/-!
# Counting votes

The aggregator counts every vote once in each of six hash maps.  The maps share nothing but
the vote, and later become six tables of the results database, so a *class* of votes is
named by the table and the key of its row.

* `VoteInfo` / `Dictionary` / `Statistics` — the data, as the classes of the same names;
* `calcAgeFromPesel` / `getAgeIdBasedOnAge` — the age group of a vote;
* `ResultKey` — the classes, and `Statistics.lookup`, all six maps as one;
* `calculateAll` — the loop over the votes;
* `lookup_calculateAll` — what it makes of every entry: one more for each vote of the class.
-/

/-- A vote as the aggregator keeps it. -/
structure VoteInfo where
  pesel : Option String
  vote : Int32
  votingArea : Int32
  gender : Int32
  education : Int32
  rowId : Option String
deriving DecidableEq, Repr

/-- The votes by their row id; `mapAllData` and the maps it is merged from. -/
abbrev VoteMap := Table (Option String) VoteInfo

/-- The dictionaries that are loaded from the results database: party by candidate, and the
    bounds of the age groups. -/
structure Dictionary where
  dictCandidatesMap : Table Int32 Int32 := ∅
  ageGroupMap : Table Int32 (Int32 × Int32) := ∅
deriving DecidableEq

/-- A reading of the clock.  The date format depends on it too: it places two-digit years
    around the time at which it is made. -/
structure Clock where
  /-- `now.getTime()`, in milliseconds. -/
  now : Int64
  /-- `df.parse(pesel.substring(0, 6)).getTime()`, `none` if either call throws. -/
  parse : String → Option Int64

/-- The age in years, 0 if the birth date cannot be read. -/
def calcAgeFromPesel (clock : Clock) (pesel : Option String) : Int32 :=
  match pesel.bind clock.parse with
  | some birth =>
    let diff := (clock.now - birth) / 1000 / 60 / 60 / 24 / 365
    -- the format may read a birth date a hundred years too late
    let diff := if diff < 18 then diff + 100 else diff
    diff.toInt32
  | none => 0

/-- The first age group around an age, 0 if there is none. -/
def Dictionary.getAgeIdBasedOnAge (d : Dictionary) (age : Int32) : Int32 :=
  match d.ageGroupMap.entries.find? fun e => e.2.1 ≤ age ∧ age ≤ e.2.2 with
  | some e => e.1
  | none   => 0

/-- The age group of a vote. -/
def Dictionary.ageId (d : Dictionary) (clock : Clock) (vi : VoteInfo) : Int32 :=
  d.getAgeIdBasedOnAge (calcAgeFromPesel clock vi.pesel)

/-- `party_id` in `calculateAll`: the party of the candidate, 1 for an unknown one. -/
def Dictionary.partyId (d : Dictionary) (vi : VoteInfo) : Int32 :=
  match d.dictCandidatesMap.lookup vi.vote with
  | some party => party
  | none       => 1

/-! ### Classes of votes -/

/-- A row of a result table, by the table and its primary key. -/
inductive ResultKey where
  | candidate (candidateId : Int32)
  | percent (partyId : Int32)
  | age (partyId ageId : Int32)
  | education (partyId educationId : Int32)
  | sex (partyId sexId : Int32)
  | constituency (partyId constituencyId : Int32)
deriving DecidableEq, Repr

/-- Whether a vote is one of those a row counts. -/
def VoteInfo.inClass (d : Dictionary) (clock : Clock) (vi : VoteInfo) : ResultKey → Bool
  | .candidate c      => vi.vote = c
  | .percent p        => d.partyId vi = p
  | .age p a          => (d.partyId vi, d.ageId clock vi) = (p, a)
  | .education p e    => (d.partyId vi, vi.education) = (p, e)
  | .sex p s          => (d.partyId vi, vi.gender) = (p, s)
  | .constituency p c => (d.partyId vi, vi.votingArea) = (p, c)

/-! ### The six maps -/

/-- The statistics, together with the dictionaries they inherit. -/
structure Statistics extends Dictionary where
  resPartyCandidatesMap : Table Int32 Int32 := ∅
  resPartyPercentMap : Table Int32 Int32 := ∅
  resPartyAgeMap : Table (Int32 × Int32) Int32 := ∅
  resPartyEducationMap : Table (Int32 × Int32) Int32 := ∅
  resPartySexMap : Table (Int32 × Int32) Int32 := ∅
  resPartyConstituencyMap : Table (Int32 × Int32) Int32 := ∅
deriving DecidableEq

namespace Statistics

/-- The count of a class in whichever map has it. -/
def lookup (s : Statistics) : ResultKey → Option Int32
  | .candidate c      => s.resPartyCandidatesMap.lookup c
  | .percent p        => s.resPartyPercentMap.lookup p
  | .age p a          => s.resPartyAgeMap.lookup (p, a)
  | .education p e    => s.resPartyEducationMap.lookup (p, e)
  | .sex p x          => s.resPartySexMap.lookup (p, x)
  | .constituency p c => s.resPartyConstituencyMap.lookup (p, c)

/-- `clear()`: the six maps are emptied, the dictionaries are not. -/
def clear (s : Statistics) : Statistics := { toDictionary := s.toDictionary }

/-- If the map contains the key its value is incremented, otherwise it becomes 1. -/
def count {K : Type} [DecidableEq K] (map : Table K Int32) (k : K) : Table K Int32 :=
  Table.bump 1 (· + 1) map k

/-- `m_calculateResPartyPercent`. -/
def calculateResPartyPercent (s : Statistics) (partyId : Int32) : Statistics :=
  { s with resPartyPercentMap := count s.resPartyPercentMap partyId }

/-- `m_calculateResPartyCandidate`. -/
def calculateResPartyCandidate (s : Statistics) (vi : VoteInfo) : Statistics :=
  { s with resPartyCandidatesMap := count s.resPartyCandidatesMap vi.vote }

/-- `m_calculateResPartyConstituency`. -/
def calculateResPartyConstituency (s : Statistics) (vi : VoteInfo) (partyId : Int32) :
    Statistics :=
  { s with resPartyConstituencyMap :=
      count s.resPartyConstituencyMap (partyId, vi.votingArea) }

/-- `m_calculateResPartySex`. -/
def calculateResPartySex (s : Statistics) (vi : VoteInfo) (partyId : Int32) : Statistics :=
  { s with resPartySexMap := count s.resPartySexMap (partyId, vi.gender) }

/-- `m_calculateResPartyEducation`. -/
def calculateResPartyEducation (s : Statistics) (vi : VoteInfo) (partyId : Int32) :
    Statistics :=
  { s with resPartyEducationMap := count s.resPartyEducationMap (partyId, vi.education) }

/-- `m_calculateResPartyAge`. -/
def calculateResPartyAge (clock : Clock) (s : Statistics) (vi : VoteInfo) (partyId : Int32) :
    Statistics :=
  { s with resPartyAgeMap := count s.resPartyAgeMap (partyId, s.ageId clock vi) }

/-- The body of the loop in `calculateAll`. -/
def calculate (clock : Clock) (s : Statistics) (vi : VoteInfo) : Statistics :=
  -- the party is looked up once for all six maps
  let partyId := s.partyId vi
  let s := s.calculateResPartyAge clock vi partyId
  let s := s.calculateResPartyEducation vi partyId
  let s := s.calculateResPartySex vi partyId
  let s := s.calculateResPartyConstituency vi partyId
  let s := s.calculateResPartyCandidate vi
  s.calculateResPartyPercent partyId

/-- `calculateAll(map)`.  The clock is read anew for every vote, so a reading is given for
    each key of the map. -/
def calculateAll (clock : Option String → Clock) (map : VoteMap) (s : Statistics) : Statistics :=
  map.entries.foldl (fun s e => s.calculate (clock e.1) e.2) s

end Statistics

/-! ### What the loop counts -/

/-- The number of votes in a class. -/
def VoteMap.classCount (d : Dictionary) (clock : Option String → Clock) (map : VoteMap)
    (k : ResultKey) : ℕ :=
  map.entries.countP fun e => e.2.inClass d (clock e.1) k

/-- The counter of a class after `n` more votes of it, as a Java `int`. -/
def counted (n : ℕ) (o : Option Int32) : Option Int32 := (Table.next 1 (· + 1))^[n] o

theorem counted_add (m n : ℕ) (o : Option Int32) :
    counted (m + n) o = counted m (counted n o) :=
  Function.iterate_add_apply _ m n o

@[simp] theorem counted_zero (o : Option Int32) : counted 0 o = o := rfl

/-- A counter that starts with the first vote is the count, as an `int`. -/
theorem counted_succ_none (n : ℕ) : counted (n + 1) none = some (Int32.ofNat (n + 1)) := by
  have hiter : ∀ n, (fun v : Int32 => v + 1)^[n] 1 = Int32.ofNat (n + 1) := by
    intro n
    induction n with
    | zero => rfl
    | succ n ih =>
      rw [Function.iterate_succ_apply', ih, Int32.ofNat_add (n + 1) 1]
      rfl
  rw [counted, Table.iterate_next_none, hiter]

/-- An `int` that is incremented, as long as it does not overflow. -/
theorem toInt_iterate {v : Int32} {n : ℕ} (h : v.toInt + n < 2 ^ 31) :
    ((fun v : Int32 => v + 1)^[n] v).toInt = v.toInt + n := by
  induction n with
  | zero => simp
  | succ n ih =>
    have hlow : -2 ^ 31 ≤ v.toInt := v.le_toInt
    have hone : (1 : Int32).toInt = 1 := rfl
    have ih' := ih (by omega)
    rw [Function.iterate_succ_apply', Int32.toInt_add, ih', hone, Int.bmod_def]
    omega

/-- So a counter that does not overflow is its initial value and what has been counted. -/
theorem toInt_counted {n : ℕ} {o : Option Int32} (h : o.elim 0 Int32.toInt + n < 2 ^ 31) :
    (counted n o).elim 0 Int32.toInt = o.elim 0 Int32.toInt + n := by
  cases o with
  | some v =>
    rw [counted, Table.iterate_next_some]
    exact toInt_iterate h
  | none =>
    cases n with
    | zero => rfl
    | succ n =>
      rw [Option.elim_none, Int.zero_add] at h
      rw [counted_succ_none, Option.elim_some, Int32.toInt_ofNat_of_lt (by omega),
        Option.elim_none, Int.zero_add]

theorem toInt_counted_none {n : ℕ} (h : n < 2 ^ 31) : (counted n none).elim 0 Int32.toInt = n := by
  rw [toInt_counted (by rw [Option.elim_none]; omega), Option.elim_none, Int.zero_add]

/-- A counter that starts at 1 and does not overflow. -/
theorem toInt_iterate_one {n : ℕ} (h : n + 1 < 2 ^ 31) :
    ((fun v : Int32 => v + 1)^[n] 1).toInt = n + 1 := by
  have hone : (1 : Int32).toInt = 1 := rfl
  rw [toInt_iterate (by omega), hone, Int.add_comm]

/-- A counter is there if it was, or if something has been counted. -/
theorem isSome_counted {n : ℕ} {o : Option Int32} :
    (counted n o).isSome = true ↔ o.isSome = true ∨ 0 < n := by
  cases n with
  | zero => simp
  | succ n =>
    cases o with
    | some v => simp [counted, Table.iterate_next_some]
    | none   => simp [counted_succ_none]

/-- Class counts depend on the lookups alone, not on the order of the entries. -/
theorem VoteMap.classCount_congr {m m' : VoteMap} (h : ∀ r, m.lookup r = m'.lookup r)
    (d : Dictionary) (clock : Option String → Clock) (k : ResultKey) :
    m.classCount d clock k = m'.classCount d clock k :=
  (Table.perm_entries h).countP_eq _

/-- A vote of the map counts once in its classes, on top of the other votes. -/
theorem VoteMap.classCount_eq_add_erase {m : VoteMap} {rowId : Option String} {vi : VoteInfo}
    (h : m.lookup rowId = some vi) (d : Dictionary) (clock : Option String → Clock)
    (k : ResultKey) :
    m.classCount d clock k = (if vi.inClass d (clock rowId) k then 1 else 0) +
      VoteMap.classCount d clock (m.erase rowId) k := by
  unfold VoteMap.classCount
  rw [(Table.perm_cons_erase h).countP_eq, List.countP_cons, Nat.add_comm]

namespace Statistics

theorem calculate_toDictionary (clock : Clock) (s : Statistics) (vi : VoteInfo) :
    (s.calculate clock vi).toDictionary = s.toDictionary := rfl

/-- One vote is counted once in every class it belongs to. -/
theorem lookup_calculate (clock : Clock) (s : Statistics) (vi : VoteInfo) (k : ResultKey) :
    (s.calculate clock vi).lookup k =
      if vi.inClass s.toDictionary clock k then Table.next 1 (· + 1) (s.lookup k)
      else s.lookup k := by
  have hbump : ∀ {K : Type} [DecidableEq K] (map : Table K Int32) (k k' : K),
      (count map k).lookup k' =
        if k = k' then Table.next 1 (· + 1) (map.lookup k') else map.lookup k' := by
    intro K _ map k k'
    rw [count, Table.lookup_bump]
    by_cases hk : k' = k
    · subst hk
      simp
    · simp [hk, Ne.symm hk]
  -- each of the six maps has one kind of class, and is bumped under that key
  cases k <;> simp only [lookup, VoteInfo.inClass, decide_eq_true_eq] <;> exact hbump _ _ _

theorem calculateAll_toDictionary (clock : Option String → Clock) (map : VoteMap)
    (s : Statistics) : (s.calculateAll clock map).toDictionary = s.toDictionary := by
  unfold calculateAll
  induction map.entries generalizing s with
  | nil => rfl
  | cons e es ih => rw [List.foldl_cons, ih, calculate_toDictionary]

/-- **Every entry of the six maps** has been incremented once for each vote of its class. -/
theorem lookup_calculateAll (clock : Option String → Clock) (map : VoteMap) (s : Statistics)
    (k : ResultKey) :
    (s.calculateAll clock map).lookup k =
      counted (map.classCount s.toDictionary clock k) (s.lookup k) := by
  unfold calculateAll VoteMap.classCount
  induction map.entries generalizing s with
  | nil => rfl
  | cons e es ih =>
    rw [List.foldl_cons, ih, calculate_toDictionary, lookup_calculate, List.countP_cons]
    by_cases hk : e.2.inClass s.toDictionary (clock e.1) k = true
    · rw [if_pos hk, if_pos hk, counted, counted, Function.iterate_succ_apply]
    · rw [if_neg hk, if_neg hk, Nat.add_zero]

/-- The statistics depend on the lookups of the vote map alone. -/
theorem lookup_calculateAll_congr {m m' : VoteMap} (h : ∀ r, m.lookup r = m'.lookup r)
    (clock : Option String → Clock) (s : Statistics) (k : ResultKey) :
    (s.calculateAll clock m).lookup k = (s.calculateAll clock m').lookup k := by
  rw [lookup_calculateAll, lookup_calculateAll, VoteMap.classCount_congr h]

/-- The dictionaries are not cleared with the maps. -/
theorem clear_toDictionary (s : Statistics) : s.clear.toDictionary = s.toDictionary := rfl

/-- New statistics have no entries. -/
@[simp] theorem lookup_new (d : Dictionary) (k : ResultKey) :
    lookup { toDictionary := d } k = none := by
  cases k <;> rfl

@[simp] theorem lookup_clear (s : Statistics) (k : ResultKey) : s.clear.lookup k = none :=
  lookup_new s.toDictionary k

end Statistics

namespace Sample

/-- A clock at the epoch that reads every birth date as the epoch: every voter is 100. -/
def clock : Option String → Clock := fun _ => { now := 0, parse := fun _ => some 0 }

/-- One vote, with its education. -/
def votes (education : Int32) : VoteMap :=
  AList.insert (some "a")
    { pesel := some "70010112345", vote := 1, votingArea := 1, gender := 1,
      education := education, rowId := some "a" } ∅

end Sample

end RsoVoting.Aggregator
