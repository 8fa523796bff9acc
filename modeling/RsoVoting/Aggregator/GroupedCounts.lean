import Mathlib.Data.List.Dedup
import RsoVoting.Aggregator.ExactCount
import RsoVoting.Aggregator.ResultTables

namespace RsoVoting.Aggregator

open RsoVoting

/-!
# Counting from grouped votes

Next to `calculateAll` the statistics have methods for votes that the database has grouped and
counted already; nothing calls them any more.  They put the counts of the groups into the
maps, and make up the counts of the parties from those of the candidates.  This file compares
them with the loop that has replaced them.

* `Grouped` — what the database delivers for a grouping: each group once, with its count
  (`groups` is one such output);
* `calcResPartyCandidates` / `calcResPartyConstituency` — the methods, which fail on a
  candidate without an entry in the dictionary;
* `calcResPartyCandidates_agrees` — the candidates and their parties are counted as the loop
  counts them;
* `calcResPartyConstituency_agrees_iff` — the constituencies only where no two candidates of
  a party have votes in the same one, for the later count replaces the earlier one.
-/

/-- The output of a grouping by `key`: the groups, in any order, with their counts. -/
structure Grouped {K : Type} [DecidableEq K] (key : VoteInfo → K) (map : VoteMap)
    (output : List (K × Int32)) : Prop where
  nodup : (output.map Prod.fst).Nodup
  mem_iff : ∀ k sum, (k, sum) ∈ output ↔
    0 < (map.entries.countP fun e => key e.2 = k) ∧
      sum = Int32.ofNat (map.entries.countP fun e => key e.2 = k)

/-- Such an output. -/
def groups {K : Type} [DecidableEq K] (key : VoteInfo → K) (map : VoteMap) : List (K × Int32) :=
  (map.entries.map fun e => key e.2).dedup.map fun k =>
    (k, Int32.ofNat (map.entries.countP fun e => key e.2 = k))

theorem grouped_groups {K : Type} [DecidableEq K] (key : VoteInfo → K) (map : VoteMap) :
    Grouped key map (groups key map) where
  nodup := by
    have hkeys : (groups key map).map Prod.fst = (map.entries.map fun e => key e.2).dedup := by
      rw [groups, List.map_map]
      exact List.map_id _
    rw [hkeys]
    exact List.nodup_dedup _
  mem_iff k sum := by
    have hmem : k ∈ (map.entries.map fun e => key e.2).dedup ↔
        0 < map.entries.countP fun e => key e.2 = k := by
      rw [List.mem_dedup, List.mem_map, List.countP_pos_iff]
      simp only [decide_eq_true_eq]
    rw [← hmem, groups, List.mem_map]
    constructor
    · rintro ⟨k', hk', heq⟩
      obtain ⟨rfl, rfl⟩ := Prod.mk.inj heq
      exact ⟨hk', rfl⟩
    · rintro ⟨hk, rfl⟩
      exact ⟨k, hk, rfl⟩

namespace Statistics

/-- The body of the loop in `calcResPartyPercent`; `none` is the `NullPointerException` of an
    unboxed null. -/
def addToParty (s : Statistics) (entry : Int32 × Int32) : Option Statistics := do
  let party ← s.dictCandidatesMap.lookup entry.1
  match s.resPartyPercentMap.lookup party with
  | some votes =>
    return { s with resPartyPercentMap := s.resPartyPercentMap.insert party (votes + entry.2) }
  | none       =>
    return { s with resPartyPercentMap := s.resPartyPercentMap.insert party entry.2 }

/-- `calcResPartyPercent()`. -/
def calcResPartyPercent (s : Statistics) : Option Statistics :=
  (Table.toPairs s.resPartyCandidatesMap).foldlM addToParty s

/-- `calcResPartyCandidates(output)`. -/
def calcResPartyCandidates (output : List (Int32 × Int32)) (s : Statistics) :
    Option Statistics :=
  calcResPartyPercent
    { s with resPartyCandidatesMap := Table.insertAll s.resPartyCandidatesMap output }

/-- The body of the loop in `calcResPartyConstituency`. -/
def putConstituency (s : Statistics) (document : (Int32 × Int32) × Int32) :
    Option Statistics := do
  let partyId ← s.dictCandidatesMap.lookup document.1.1
  let resPartyConstituencyMap :=
    Table.put s.resPartyConstituencyMap (partyId, document.1.2) document.2
  return { s with resPartyConstituencyMap }

/-- `calcResPartyConstituency(output)`, for groups by candidate and constituency. -/
def calcResPartyConstituency (output : List ((Int32 × Int32) × Int32)) (s : Statistics) :
    Option Statistics :=
  output.foldlM putConstituency s

end Statistics

/-- The candidate of every vote is in the dictionary. -/
def Dictionary.Knows (d : Dictionary) (map : VoteMap) : Prop :=
  ∀ e ∈ map.entries, (d.dictCandidatesMap.lookup e.2.vote).isSome = true

/-- Two counters with the same entry and value are the same. -/
theorem counter_ext {o o' : Option Int32} (hsome : o.isSome = o'.isSome)
    (hvalue : o.elim 0 Int32.toInt = o'.elim 0 Int32.toInt) : o = o' := by
  cases o with
  | none =>
    cases o' with
    | none => rfl
    | some v' => cases hsome
  | some v =>
    cases o' with
    | none => cases hsome
    | some v' => exact congrArg some (Int32.toInt_inj.mp hvalue)

/-! ### The parties -/

/-- What adding a count makes of an entry. -/
def plus (o : Option Int32) (v : Int32) : Option Int32 := some (o.elim v (· + v))

theorem isSome_foldl_plus (xs : List Int32) (o : Option Int32) :
    (xs.foldl plus o).isSome = true ↔ o.isSome = true ∨ xs ≠ [] := by
  cases xs using List.reverseRecOn with
  | nil => simp
  | append_singleton xs x => simp [List.foldl_append, plus]

/-- Counts that are not negative add up, as long as their sum does not overflow. -/
theorem toInt_foldl_plus {xs : List Int32} {o : Option Int32} (hpos : ∀ x ∈ xs, 0 ≤ x.toInt)
    (ho : 0 ≤ o.elim 0 Int32.toInt)
    (hsize : o.elim 0 Int32.toInt + (xs.map Int32.toInt).sum < 2 ^ 31) :
    (xs.foldl plus o).elim 0 Int32.toInt = o.elim 0 Int32.toInt + (xs.map Int32.toInt).sum := by
  induction xs generalizing o with
  | nil => simp
  | cons x xs ih =>
    have hx := hpos x (List.mem_cons_self ..)
    have hxs : 0 ≤ (xs.map Int32.toInt).sum := by
      apply List.sum_nonneg
      exact List.forall_mem_map.mpr fun y hy => hpos y (List.mem_cons_of_mem _ hy)
    rw [List.map_cons, List.sum_cons] at hsize ⊢
    have hplus : (plus o x).elim 0 Int32.toInt = o.elim 0 Int32.toInt + x.toInt := by
      cases o with
      | none => simp [plus]
      | some v =>
        show (v + x).toInt = v.toInt + x.toInt
        rw [Option.elim_some] at hsize ho
        rw [Int32.toInt_add, Int.bmod_def]
        omega
    rw [List.foldl_cons, ih (fun y hy => hpos y (List.mem_cons_of_mem _ hy))
      (by rw [hplus]; omega) (by rw [hplus]; omega), hplus]
    omega

/-- Counts that add up to `n` make the entry that counting `n` times makes. -/
theorem foldl_plus_eq_counted {xs : List Int32} {n : ℕ} (hpos : ∀ x ∈ xs, 0 < x.toInt)
    (hsum : (xs.map Int32.toInt).sum = n) (hn : n < 2 ^ 31) :
    xs.foldl plus none = counted n none := by
  apply counter_ext
  · rw [Bool.eq_iff_iff, isSome_foldl_plus, isSome_counted]
    apply or_congr_right
    constructor
    · intro hne
      have hlt := List.sum_pos _ (List.forall_mem_map.mpr hpos) (mt List.map_eq_nil_iff.mp hne)
      omega
    · rintro hcount rfl
      have hzero : (0 : ℤ) = n := hsum
      omega
  · have hsize : (none : Option Int32).elim 0 Int32.toInt + (xs.map Int32.toInt).sum < 2 ^ 31 := by
      rw [hsum, Option.elim_none]
      omega
    rw [toInt_counted_none hn, toInt_foldl_plus (fun x hx => (hpos x hx).le) le_rfl hsize, hsum,
      Option.elim_none, zero_add]

namespace Statistics

/-- The counts of the candidates of a party. -/
def ofParty (d : Dictionary) (p : Int32) (entries : List (Int32 × Int32)) : List Int32 :=
  (entries.filter fun e => d.dictCandidatesMap.lookup e.1 = some p).map Prod.snd

/-- One count is added to its party. -/
theorem addToParty_eq {s : Statistics} {entry : Int32 × Int32} {party : Int32}
    (h : s.dictCandidatesMap.lookup entry.1 = some party) :
    ∃ s', addToParty s entry = some s' ∧ s'.toDictionary = s.toDictionary ∧
      s'.resPartyCandidatesMap = s.resPartyCandidatesMap ∧
      ∀ p, s'.resPartyPercentMap.lookup p =
        if p = party then plus (s.resPartyPercentMap.lookup party) entry.2
        else s.resPartyPercentMap.lookup p := by
  unfold addToParty
  rw [h]
  cases hlook : s.resPartyPercentMap.lookup party with
  | none =>
    exact ⟨{ s with resPartyPercentMap := s.resPartyPercentMap.insert party entry.2 },
      by simp [hlook], rfl, rfl, fun p => Table.lookup_insert_eq _ _ _ _⟩
  | some votes =>
    exact ⟨{ s with resPartyPercentMap := s.resPartyPercentMap.insert party (votes + entry.2) },
      by simp [hlook], rfl, rfl, fun p => Table.lookup_insert_eq _ _ _ _⟩

/-- The loop adds every count to its party, and touches nothing else. -/
theorem foldlM_addToParty {entries : List (Int32 × Int32)} {s : Statistics}
    (hknown : ∀ e ∈ entries, (s.dictCandidatesMap.lookup e.1).isSome = true) :
    ∃ s', entries.foldlM addToParty s = some s' ∧
      s'.resPartyCandidatesMap = s.resPartyCandidatesMap ∧
      ∀ p, s'.resPartyPercentMap.lookup p =
        (ofParty s.toDictionary p entries).foldl plus (s.resPartyPercentMap.lookup p) := by
  induction entries generalizing s with
  | nil => exact ⟨s, rfl, rfl, fun p => rfl⟩
  | cons entry entries ih =>
    obtain ⟨party, hparty⟩ := Option.isSome_iff_exists.mp (hknown entry (List.mem_cons_self ..))
    obtain ⟨s₁, hs₁, hdict, hcand₁, hpercent₁⟩ := addToParty_eq hparty
    obtain ⟨s', hs', hcand', hpercent'⟩ := @ih s₁ (by
      rw [hdict]
      exact fun e he => hknown e (List.mem_cons_of_mem _ he))
    refine ⟨s', by rw [List.foldlM_cons, hs₁]; exact hs', hcand'.trans hcand₁, fun p => ?_⟩
    rw [hpercent', hpercent₁, hdict]
    by_cases hp : p = party
    · subst hp
      simp [ofParty, hparty, plus]
    · have hne : ¬s.dictCandidatesMap.lookup entry.1 = some p := by
        rw [hparty]
        exact fun h => hp (Option.some.inj h).symm
      simp [ofParty, hne, hp]

end Statistics

/-- The map of the candidates after their groups have been put into it. -/
theorem lookup_insertAll_grouped {K : Type} [DecidableEq K] {key : VoteInfo → K} {map : VoteMap}
    {output : List (K × Int32)} (h : Grouped key map output) (k : K) :
    (Table.insertAll ∅ output).lookup k =
      counted (map.entries.countP fun e => key e.2 = k) none := by
  apply Option.ext
  intro v
  rw [Table.lookup_insertAll_of_nodup h.nodup, h.mem_iff]
  cases map.entries.countP fun e => key e.2 = k with
  | zero   => simp
  | succ n => simp [counted_succ_none, eq_comm]

/-- The counts of the candidates of a party add up to its votes. -/
theorem sum_ofParty {d : Dictionary} {map : VoteMap} {output : List (Int32 × Int32)}
    (hgrouped : Grouped VoteInfo.vote map output) (hknown : d.Knows map)
    (hsize : map.entries.length < 2 ^ 31) (clock : Option String → Clock) (p : Int32) :
    ((Statistics.ofParty d p (Table.toPairs (Table.insertAll ∅ output))).map
      Int32.toInt).sum = map.classCount d clock (.percent p) := by
  have htable := sum_of_counted (fun e : Sigma fun _ : Option String => VoteInfo => e.2.vote)
    (lookup_insertAll_grouped hgrouped)
    (fun c => Nat.lt_of_le_of_lt List.countP_le_length hsize)
    fun c => d.dictCandidatesMap.lookup c = some p
  have hcongr : map.entries.countP (fun e => d.dictCandidatesMap.lookup e.2.vote = some p) =
      map.classCount d clock (.percent p) := by
    apply List.countP_congr
    intro e he
    obtain ⟨party, hparty⟩ := Option.isSome_iff_exists.mp (hknown e he)
    simp [VoteInfo.inClass, Dictionary.partyId, hparty]
  rw [← hcongr, ← htable, Statistics.ofParty, Table.toPairs, List.filter_map, List.map_map,
    List.map_map]
  rfl

/-- **Grouping by candidates agrees with the loop.**  On new statistics, over fewer than
    `2^31` votes whose candidates are all in the dictionary, the method makes the same maps of
    the candidates and of the parties as `calculateAll`, in whatever order the groups come. -/
theorem calcResPartyCandidates_agrees {d : Dictionary} {map : VoteMap}
    {output : List (Int32 × Int32)} (hgrouped : Grouped VoteInfo.vote map output)
    (hknown : d.Knows map) (hsize : map.entries.length < 2 ^ 31)
    (clock : Option String → Clock) :
    let result := Statistics.calculateAll clock map { toDictionary := d }
    ∃ s, Statistics.calcResPartyCandidates output { toDictionary := d } = some s ∧
      (∀ c, s.lookup (.candidate c) = result.lookup (.candidate c)) ∧
      ∀ p, s.lookup (.percent p) = result.lookup (.percent p) := by
  intro result
  have hcand := lookup_insertAll_grouped hgrouped
  have hresult : ∀ k, result.lookup k = counted (map.classCount d clock k) none :=
    fun k => lookup_calculateAll_of_empty (Statistics.lookup_new d) k
  -- a candidate with a count has a vote, so it is in the dictionary
  have hentries : ∀ e ∈ Table.toPairs (Table.insertAll ∅ output),
      (d.dictCandidatesMap.lookup e.1).isSome = true ∧ 0 < e.2.toInt := by
    intro e he
    have hlook := (hcand e.1).symm.trans (Table.mem_toPairs.mp he)
    have hlt : (map.entries.countP fun v => v.2.vote = e.1) < 2 ^ 31 :=
      Nat.lt_of_le_of_lt List.countP_le_length hsize
    have hvalue := toInt_counted_none hlt
    have hpos := isSome_counted.mp (Option.isSome_of_eq_some hlook)
    rw [hlook, Option.elim_some] at hvalue
    simp only [Option.isSome_none, Bool.false_eq_true, false_or] at hpos
    obtain ⟨v, hv, hvote⟩ := List.countP_pos_iff.mp hpos
    rw [← of_decide_eq_true hvote]
    exact ⟨hknown v hv, by omega⟩
  obtain ⟨s, hs, hcandidates, hpercent⟩ := @Statistics.foldlM_addToParty
    (Table.toPairs (Table.insertAll ∅ output))
    { toDictionary := d, resPartyCandidatesMap := Table.insertAll ∅ output }
    fun e he => (hentries e he).1
  refine ⟨s, hs, fun c => ?_, fun p => ?_⟩
  · rw [hresult]
    show s.resPartyCandidatesMap.lookup c = _
    rw [hcandidates]
    exact hcand c
  · rw [hresult]
    show s.resPartyPercentMap.lookup p = _
    refine (hpercent p).trans (foldl_plus_eq_counted (fun x hx => ?_)
      (sum_ofParty hgrouped hknown hsize clock p)
      (Nat.lt_of_le_of_lt List.countP_le_length hsize))
    obtain ⟨e, he, rfl⟩ := List.mem_map.mp hx
    exact (hentries e (List.mem_of_mem_filter he)).2

/-- Two votes for different candidates of one party, in one constituency. -/
def Sample.rivals : VoteMap :=
  AList.insert (some "b")
    { pesel := none, vote := 2, votingArea := 5, gender := 1, education := 2,
      rowId := some "b" }
    (AList.insert (some "a")
      { pesel := none, vote := 1, votingArea := 5, gender := 0, education := 2,
        rowId := some "a" } ∅)

/-- The candidates of `rivals` in their party. -/
def Sample.rivalsDictionary : Dictionary where
  dictCandidatesMap := AList.insert 2 7 (AList.insert 1 7 ∅)

/-- The candidates of two votes, and their party. -/
theorem calcResPartyCandidates_agrees_sample :
    ∃ s, Statistics.calcResPartyCandidates (groups VoteInfo.vote Sample.rivals)
        { toDictionary := Sample.rivalsDictionary } = some s ∧
      s.lookup (.candidate 2) = some 1 ∧ s.lookup (.percent 7) = some 2 := by
  obtain ⟨s, hs, hcandidate, hpercent⟩ := @calcResPartyCandidates_agrees
    Sample.rivalsDictionary Sample.rivals _ (grouped_groups _ _)
    (by unfold Dictionary.Knows; decide) (by decide) Sample.clock
  exact ⟨s, hs, (hcandidate 2).trans rfl, (hpercent 7).trans rfl⟩

/-! ### The constituencies -/

/-- The documents as rows of the map: by the party of the candidate. -/
def Dictionary.documentRows (d : Dictionary) (output : List ((Int32 × Int32) × Int32)) :
    List ((Int32 × Int32) × Int32) :=
  output.map fun document => ((d.partyOf document.1.1, document.1.2), document.2)

theorem foldlM_putConstituency {output : List ((Int32 × Int32) × Int32)} {s : Statistics}
    (hknown : ∀ doc ∈ output, (s.dictCandidatesMap.lookup doc.1.1).isSome = true) :
    ∃ s', output.foldlM Statistics.putConstituency s = some s' ∧ s'.resPartyConstituencyMap =
      Table.insertAll s.resPartyConstituencyMap (s.toDictionary.documentRows output) := by
  induction output generalizing s with
  | nil => exact ⟨s, rfl, rfl⟩
  | cons doc output ih =>
    obtain ⟨party, hparty⟩ := Option.isSome_iff_exists.mp (hknown doc (List.mem_cons_self ..))
    have hpartyOf : s.partyOf doc.1.1 = party := by rw [Dictionary.partyOf, hparty]; rfl
    let map' := Table.put s.resPartyConstituencyMap (party, doc.1.2) doc.2
    obtain ⟨s', hs', hmap⟩ := @ih { s with resPartyConstituencyMap := map' }
      fun doc' hdoc' => hknown doc' (List.mem_cons_of_mem _ hdoc')
    refine ⟨s', ?_, hmap.trans ?_⟩
    · rw [List.foldlM_cons, Statistics.putConstituency, hparty]
      exact hs'
    · rw [Dictionary.documentRows, Dictionary.documentRows, List.map_cons,
        Table.insertAll_cons, hpartyOf]

section Constituencies

variable {d : Dictionary} {map : VoteMap} {output : List ((Int32 × Int32) × Int32)}

/-- The votes of a candidate in a constituency. -/
def VoteMap.localVotes (map : VoteMap) (candidateId constituencyId : Int32) : ℕ :=
  map.entries.countP fun e => (e.2.vote, e.2.votingArea) = (candidateId, constituencyId)

/-- A row of a party in a constituency is the count of one of its candidates there. -/
theorem mem_documentRows
    (hgrouped : Grouped (fun vi => (vi.vote, vi.votingArea)) map output) {p a sum : Int32} :
    ((p, a), sum) ∈ d.documentRows output ↔ ∃ c, d.partyOf c = p ∧
      0 < map.localVotes c a ∧ sum = Int32.ofNat (map.localVotes c a) := by
  rw [Dictionary.documentRows, List.mem_map]
  constructor
  · rintro ⟨⟨⟨c, a'⟩, sum'⟩, hmem, heq⟩
    obtain ⟨hkey, rfl⟩ := Prod.mk.inj heq
    obtain ⟨rfl, rfl⟩ := Prod.mk.inj hkey
    exact ⟨c, rfl, (hgrouped.mem_iff _ _).mp hmem⟩
  · rintro ⟨c, rfl, hcount⟩
    exact ⟨((c, a), sum), (hgrouped.mem_iff _ _).mpr hcount, rfl⟩

/-- The votes of a candidate in a constituency are votes of its party there. -/
theorem localVotes_eq (clock : Option String → Clock) {c p a : Int32}
    (hp : d.partyOf c = p) : map.localVotes c a = map.entries.countP fun e =>
      e.2.inClass d (clock e.1) (.constituency p a) && decide (e.2.vote = c) := by
  apply List.countP_congr
  intro e _
  simp only [VoteInfo.inClass, Bool.and_eq_true, decide_eq_true_eq, Prod.mk.injEq,
    Dictionary.partyId_eq]
  constructor
  · rintro ⟨rfl, rfl⟩
    exact ⟨⟨hp, rfl⟩, rfl⟩
  · rintro ⟨⟨-, ha⟩, hc⟩
    exact ⟨hc, ha⟩

/-- They are all of them exactly if no other candidate of the party has a vote there. -/
theorem classCount_eq_localVotes_iff (clock : Option String → Clock) {c p a : Int32}
    (hp : d.partyOf c = p) :
    map.classCount d clock (.constituency p a) = map.localVotes c a ↔
      ∀ e ∈ map.entries, d.partyId e.2 = p → e.2.votingArea = a → e.2.vote = c := by
  rw [localVotes_eq clock hp, VoteMap.classCount, countP_eq_countP_and_iff]
  simp only [VoteInfo.inClass, decide_eq_true_eq, Prod.mk.injEq, and_imp]

/-- A candidate with votes in a constituency has one there. -/
theorem exists_of_localVotes_pos {c a : Int32} (h : 0 < map.localVotes c a) :
    ∃ e ∈ map.entries, e.2.vote = c ∧ e.2.votingArea = a := by
  obtain ⟨e, he, hkey⟩ := List.countP_pos_iff.mp h
  exact ⟨e, he, Prod.mk.inj (of_decide_eq_true hkey)⟩

/-- Where one candidate has all votes of its party in a constituency, the row of the party is
    their count. -/
theorem lookup_documentRows_of_alone
    (hgrouped : Grouped (fun vi => (vi.vote, vi.votingArea)) map output)
    (clock : Option String → Clock) {p a : Int32}
    (halone : ∀ e ∈ map.entries, ∀ e' ∈ map.entries, d.partyId e.2 = p → d.partyId e'.2 = p →
      e.2.votingArea = a → e'.2.votingArea = a → e.2.vote = e'.2.vote) :
    (Table.insertAll ∅ (d.documentRows output)).lookup (p, a) =
      counted (map.classCount d clock (.constituency p a)) none := by
  cases hn : map.classCount d clock (.constituency p a) with
  | zero =>
    -- no vote, no group
    rw [counted_zero, ← Option.not_isSome_iff_eq_none, Table.isSome_lookup_insertAll]
    rintro (⟨sum, hmem⟩ | hempty)
    · obtain ⟨c, hc, hpos, -⟩ := (mem_documentRows hgrouped).mp hmem
      obtain ⟨e, he, rfl, rfl⟩ := exists_of_localVotes_pos hpos
      refine List.countP_pos_iff.mpr ⟨e, he, decide_eq_true ?_⟩ |>.ne' hn
      rw [Dictionary.partyId_eq, hc]
    · simp at hempty
  | succ n =>
    have hpos : 0 < map.classCount d clock (.constituency p a) := by omega
    obtain ⟨e, he, hkey⟩ := List.countP_pos_iff.mp hpos
    obtain ⟨hp, ha⟩ := Prod.mk.inj (of_decide_eq_true hkey)
    have honly : ∀ e' ∈ map.entries, d.partyId e'.2 = p → e'.2.votingArea = a →
        e'.2.vote = e.2.vote := fun e' he' hp' ha' => halone e' he' e he hp' hp ha' ha
    have hpartyOf : d.partyOf e.2.vote = p := (d.partyId_eq e.2).symm.trans hp
    have hcount := (classCount_eq_localVotes_iff clock hpartyOf).mpr honly
    rw [counted_succ_none, ← hn, hcount]
    apply Table.lookup_insertAll_of_consistent
    · exact (mem_documentRows hgrouped).mpr ⟨_, hpartyOf, by omega, rfl⟩
    · intro sum hsum
      obtain ⟨c, hc, hposc, rfl⟩ := (mem_documentRows hgrouped).mp hsum
      obtain ⟨e', he', rfl, ha'⟩ := exists_of_localVotes_pos hposc
      rw [honly e' he' ((d.partyId_eq e'.2).trans hc) ha']

/-- **When grouping by candidates and constituencies agrees with the loop.**  On new
    statistics, over fewer than `2^31` votes whose candidates are all in the dictionary, the
    method makes the same map of the constituencies as `calculateAll` exactly if no two
    candidates of a party have votes in the same constituency. -/
theorem calcResPartyConstituency_agrees_iff
    (hgrouped : Grouped (fun vi => (vi.vote, vi.votingArea)) map output) (hknown : d.Knows map)
    (hsize : map.entries.length < 2 ^ 31) (clock : Option String → Clock) :
    let result := Statistics.calculateAll clock map { toDictionary := d }
    ∃ s, Statistics.calcResPartyConstituency output { toDictionary := d } = some s ∧
      ((∀ p a, s.lookup (.constituency p a) = result.lookup (.constituency p a)) ↔
        ∀ e ∈ map.entries, ∀ e' ∈ map.entries, d.partyId e.2 = d.partyId e'.2 →
          e.2.votingArea = e'.2.votingArea → e.2.vote = e'.2.vote) := by
  intro result
  have hresult : ∀ k, result.lookup k = counted (map.classCount d clock k) none :=
    fun k => lookup_calculateAll_of_empty (Statistics.lookup_new d) k
  have hdocs : ∀ doc ∈ output, (d.dictCandidatesMap.lookup doc.1.1).isSome = true := by
    rintro ⟨⟨c, a⟩, sum⟩ hmem
    obtain ⟨e, he, rfl, -⟩ := exists_of_localVotes_pos ((hgrouped.mem_iff _ _).mp hmem).1
    exact hknown e he
  obtain ⟨s, hs, hmap⟩ := @foldlM_putConstituency output { toDictionary := d } hdocs
  have hlook : ∀ p a, s.lookup (.constituency p a) =
      (Table.insertAll ∅ (d.documentRows output)).lookup (p, a) := by
    intro p a
    show s.resPartyConstituencyMap.lookup (p, a) = _
    rw [hmap]
  have hlt : ∀ {p : (Sigma fun _ : Option String => VoteInfo) → Bool},
      map.entries.countP p < 2 ^ 31 := Nat.lt_of_le_of_lt List.countP_le_length hsize
  refine ⟨s, hs, ?_⟩
  simp only [hlook, hresult]
  constructor
  · -- the row that is left is that of one candidate, so it cannot be that of two
    intro hagree e he e' he' hparty harea
    have hpos : 0 < map.classCount d clock (.constituency (d.partyId e'.2) e'.2.votingArea) :=
      List.countP_pos_iff.mpr ⟨e', he', decide_eq_true rfl⟩
    obtain ⟨sum, hsum⟩ := Option.isSome_iff_exists.mp (isSome_counted.mpr (.inr hpos))
    have hrow := (hagree (d.partyId e'.2) e'.2.votingArea).trans hsum
    have hmem := (Table.mem_of_lookup_insertAll hrow).resolve_right (by simp)
    obtain ⟨c, hc, -, rfl⟩ := (mem_documentRows hgrouped).mp hmem
    have hcount := toInt_counted_none
      (show map.classCount d clock (.constituency (d.partyId e'.2) e'.2.votingArea) < 2 ^ 31
        from hlt)
    have hlocal : map.localVotes c e'.2.votingArea < 2 ^ 31 := hlt
    rw [hsum, Option.elim_some, Int32.toInt_ofNat_of_lt hlocal, Int.natCast_inj] at hcount
    have hall := (classCount_eq_localVotes_iff clock hc).mp hcount.symm
    exact (hall e he hparty harea).trans (hall e' he' rfl rfl).symm
  · intro hone p a
    apply lookup_documentRows_of_alone hgrouped clock
    intro e he e' he' hp hp' ha ha'
    exact hone e he e' he' (hp.trans hp'.symm) (ha.trans ha'.symm)

end Constituencies

/-- One of the two votes is lost. -/
theorem calcResPartyConstituency_agrees_iff_sample :
    ∃ s, Statistics.calcResPartyConstituency
        (groups (fun vi => (vi.vote, vi.votingArea)) Sample.rivals)
        { toDictionary := Sample.rivalsDictionary } = some s ∧
      ¬∀ p a, s.lookup (.constituency p a) = Statistics.lookup (Statistics.calculateAll
        Sample.clock Sample.rivals { toDictionary := Sample.rivalsDictionary })
          (.constituency p a) := by
  obtain ⟨s, hs, hagree⟩ := @calcResPartyConstituency_agrees_iff
    Sample.rivalsDictionary Sample.rivals _ (grouped_groups _ _)
    (by unfold Dictionary.Knows; decide) (by decide) Sample.clock
  refine ⟨s, hs, mt hagree.mp ?_⟩
  decide

end RsoVoting.Aggregator
