import RsoVoting.Aggregator.ExactCount
import RsoVoting.Aggregator.PostgresHandler

namespace RsoVoting.Aggregator

open RsoVoting

/-!
# Whether the published tables agree

Six tables are counted separately and their rows are checked against different dictionary
tables.  A vote whose party exists is counted in `res_party_percent`; it is counted in the
other five tables as well exactly if everything else it refers to exists too.

* `Database.Agree` — for one party the total of each table is that of `res_party_percent`;
* `DictTables.Covers` — everything a vote refers to is in the dictionary tables;
* `tables_agree_iff` — the tables agree exactly if they cover the votes that are counted,
  as long as these are fewer than `2^31`;
* `tables_can_disagree` — over a vote that is not covered, or too many that are.
-/

/-- For party `p` the votes in `res_party_percent` are those of its candidates, and those of
    its rows in the four other tables. -/
def Database.Agree (db : Database) (p : Int32) : Prop :=
  let percent : ℤ := (db.resPartyPercent.lookup p).elim 0 Int32.toInt
  percent = Table.sum (fun c => db.dCandidates.lookup c = some (some p)) Int32.toInt
      db.resPartyCandidates ∧
  percent = Table.sum (fun k => k.1 = p) Int32.toInt db.resPartyAge ∧
  percent = Table.sum (fun k => k.1 = p) Int32.toInt db.resPartyEducation ∧
  percent = Table.sum (fun k => k.1 = p) Int32.toInt db.resPartySex ∧
  percent = Table.sum (fun k => k.1 = p) Int32.toInt db.resPartyConstituency

instance (db : Database) (p : Int32) : Decidable (db.Agree p) :=
  inferInstanceAs (Decidable (_ ∧ _ ∧ _ ∧ _ ∧ _))

/-- The candidate of a vote exists and has a party, and its age group, education, sex and
    constituency exist. -/
def DictTables.Covers (db : DictTables) (d : Dictionary) (clock : Clock) (vi : VoteInfo) : Prop :=
  (∃ p, db.dCandidates.lookup vi.vote = some (some p)) ∧
  (db.dAge.lookup (d.ageId clock vi)).isSome = true ∧
  vi.education ∈ db.dEducation ∧ vi.gender ∈ db.dSex ∧ vi.votingArea ∈ db.dConstituencies

/-- The votes that count for party `p`, if it exists. -/
def DictTables.partyVotes (db : DictTables) (d : Dictionary) (map : VoteMap) (p : Int32) : ℕ :=
  map.entries.countP fun e => p ∈ db.dParties ∧ d.partyId e.2 = p

/-- Counting with one more condition makes no difference exactly if it always holds. -/
theorem countP_eq_countP_and_iff {α : Type} {a b : α → Bool} {xs : List α} :
    xs.countP a = xs.countP (fun x => a x && b x) ↔ ∀ x ∈ xs, a x = true → b x = true := by
  induction xs with
  | nil => simp
  | cons x xs ih =>
    have hle : xs.countP (fun x => a x && b x) ≤ xs.countP a :=
      List.countP_mono_left fun y _ hy => (Bool.and_eq_true_iff.mp hy).1
    rw [List.countP_cons, List.countP_cons, List.forall_mem_cons, ← ih]
    cases a x <;> cases b x <;> simp
    omega

section

variable {db db' : Database} {d : Dictionary} {clock : Option String → Clock} {map : VoteMap}

/-- The total of one result table over the rows that satisfy `p`. -/
private theorem sum_table {K : Type} [DecidableEq K] {res : Table K Int32} {q : K → Bool}
    (hsize : map.entries.length < 2 ^ 31) (key : (Sigma fun _ : Option String => VoteInfo) → K)
    (hres : ∀ k, res.lookup k =
      if q k then counted (map.entries.countP fun e => key e = k) none else none)
    (p : K → Bool) :
    Table.sum p Int32.toInt res = map.entries.countP fun e => q (key e) && p (key e) :=
  Table.sum_of_lookup_tally key map.entries hres
    (fun _ _ hn => toInt_iterate_one (Nat.lt_of_le_of_lt
      (Nat.le_trans hn List.countP_le_length) hsize)) p

/-- A table keyed by party and something else has all votes of a party exactly if that
    something always exists. -/
private theorem pair_table_iff {res : Table (Int32 × Int32) Int32} {q : Int32 → Int32 → Bool}
    {r : Int32 → Prop} (hsize : map.entries.length < 2 ^ 31)
    (key : (Sigma fun _ : Option String => VoteInfo) → Int32)
    (hq : ∀ p a, q p a = true ↔ p ∈ db.dParties ∧ r a)
    (hres : ∀ p a, res.lookup (p, a) =
      if q p a then counted (map.entries.countP fun e => (d.partyId e.2, key e) = (p, a)) none
      else none) (p : Int32) :
    (db.partyVotes d map p : ℤ) = Table.sum (fun k => k.1 = p) Int32.toInt res ↔
      ∀ e ∈ map.entries, p ∈ db.dParties ∧ d.partyId e.2 = p → r (key e) := by
  -- a row is there if its ids exist, so the table counts the votes of `p` whose id exists
  have hsum : Table.sum (fun k => k.1 = p) Int32.toInt res =
      map.entries.countP fun e => decide (p ∈ db.dParties ∧ d.partyId e.2 = p) &&
        q (d.partyId e.2) (key e) := by
    rw [sum_table hsize (fun e => (d.partyId e.2, key e)) fun k => hres k.1 k.2]
    refine congrArg _ (List.countP_congr fun e _ => ?_)
    simp only [Bool.and_eq_true, decide_eq_true_eq, hq]
    constructor
    · rintro ⟨⟨hp, hr⟩, rfl⟩
      exact ⟨⟨hp, rfl⟩, hp, hr⟩
    · rintro ⟨⟨-, rfl⟩, hp, hr⟩
      exact ⟨⟨hp, hr⟩, rfl⟩
  rw [hsum, DictTables.partyVotes, Int.natCast_inj, countP_eq_countP_and_iff]
  simp only [decide_eq_true_eq, hq]
  exact forall_congr' fun e => forall_congr' fun _ => forall_congr' fun h =>
    and_iff_right (h.2 ▸ h.1)

/-- The candidates' table has all votes of a party exactly if each is for a candidate of a
    party. -/
private theorem candidate_table_iff {res : Table Int32 Int32}
    (hload : d.Loaded db.toDictTables) (hsize : map.entries.length < 2 ^ 31)
    (hres : ∀ c, res.lookup c = if (db.dCandidates.lookup c).isSome then
      counted (map.entries.countP fun e => e.2.vote = c) none else none) (p : Int32) :
    (db.partyVotes d map p : ℤ) =
        Table.sum (fun c => db.dCandidates.lookup c = some (some p)) Int32.toInt res ↔
      ∀ e ∈ map.entries, p ∈ db.dParties ∧ d.partyId e.2 = p →
        ∃ p', db.dCandidates.lookup e.2.vote = some (some p') := by
  -- the dictionary has the party that the table has
  have hparty : ∀ (vi : VoteInfo) p', db.dCandidates.lookup vi.vote = some (some p') →
      d.partyId vi = p' := by
    intro vi p' h
    rw [Dictionary.partyId, hload.1, h]
    rfl
  have hsum : Table.sum (fun c => db.dCandidates.lookup c = some (some p)) Int32.toInt res =
      map.entries.countP fun e => decide (p ∈ db.dParties ∧ d.partyId e.2 = p) &&
        decide (db.dCandidates.lookup e.2.vote = some (some p)) := by
    rw [sum_table hsize (fun e => e.2.vote) hres]
    refine congrArg _ (List.countP_congr fun e _ => ?_)
    simp only [Bool.and_eq_true, decide_eq_true_eq]
    constructor
    · rintro ⟨-, h⟩
      exact ⟨⟨db.fkPartyId _ _ h, hparty e.2 p h⟩, h⟩
    · rintro ⟨-, h⟩
      exact ⟨by rw [h]; rfl, h⟩
  rw [hsum, DictTables.partyVotes, Int.natCast_inj, countP_eq_countP_and_iff]
  simp only [decide_eq_true_eq]
  refine forall_congr' fun e => forall_congr' fun _ => forall_congr' fun h => ?_
  constructor
  · exact fun h' => ⟨p, h'⟩
  · rintro ⟨p', h'⟩
    rw [h', ← hparty e.2 p' h', h.2]

/-- The published tables in terms of the votes. -/
private theorem agree_iff (hload : d.Loaded db.toDictTables)
    (hsize : map.entries.length < 2 ^ 31) (htables : db'.toDictTables = db.toDictTables)
    (hlook : ∀ k, db'.lookup k =
      if db.references k then counted (map.classCount d clock k) none else none) (p : Int32) :
    db'.Agree p ↔ ∀ e ∈ map.entries, p ∈ db.dParties ∧ d.partyId e.2 = p →
      db.Covers d (clock e.1) e.2 := by
  have hpercent : (db'.resPartyPercent.lookup p).elim 0 Int32.toInt = db.partyVotes d map p := by
    have hp : db'.resPartyPercent.lookup p =
        if db.references (.percent p) then counted (map.classCount d clock (.percent p)) none
        else none := hlook (.percent p)
    have hlt : map.classCount d clock (.percent p) < 2 ^ 31 :=
      Nat.lt_of_le_of_lt List.countP_le_length hsize
    rw [hp, DictTables.partyVotes]
    by_cases hmem : p ∈ db.dParties
    · have href : db.references (.percent p) = true := decide_eq_true hmem
      rw [if_pos href, toInt_counted_none hlt]
      simp [VoteMap.classCount, VoteInfo.inClass, hmem]
    · have href : ¬ db.references (.percent p) = true := fun h => hmem (of_decide_eq_true h)
      rw [if_neg href]
      simp [hmem]
  -- every other table, compared with the votes of the party
  have hcand := candidate_table_iff hload hsize (fun c => hlook (.candidate c)) p
  have hage := pair_table_iff hsize (fun e => d.ageId (clock e.1) e.2)
    (fun _ _ => decide_eq_true_iff) (fun p a => hlook (.age p a)) p
  have hedu := pair_table_iff hsize (fun e => e.2.education)
    (fun _ _ => decide_eq_true_iff) (fun p a => hlook (.education p a)) p
  have hsex := pair_table_iff hsize (fun e => e.2.gender)
    (fun _ _ => decide_eq_true_iff) (fun p a => hlook (.sex p a)) p
  have hcons := pair_table_iff hsize (fun e => e.2.votingArea)
    (fun _ _ => decide_eq_true_iff) (fun p a => hlook (.constituency p a)) p
  unfold Database.Agree
  rw [hpercent, htables]
  dsimp only
  rw [hcand, hage, hedu, hsex, hcons]
  constructor
  · rintro ⟨hcand, hage, hedu, hsex, hcons⟩ e he hp
    exact ⟨hcand e he hp, hage e he hp, hedu e he hp, hsex e he hp, hcons e he hp⟩
  · intro h
    exact ⟨fun e he hp => (h e he hp).1, fun e he hp => (h e he hp).2.1,
      fun e he hp => (h e he hp).2.2.1, fun e he hp => (h e he hp).2.2.2.1,
      fun e he hp => (h e he hp).2.2.2.2⟩

/-- Result tables that were empty have a row exactly for each class that is accepted and has
    a vote. -/
private theorem lookup_store_counted (hempty : ∀ k, db.lookup k = none) (k : ResultKey) :
    (({} : Behaviour).store
        (Statistics.calculateAll clock map { toDictionary := d }).rows db).lookup k =
      if db.references k then counted (map.classCount d clock k) none else none := by
  rw [Behaviour.lookup_store, hempty, Statistics.lookup_calculateAll, Statistics.lookup_new]
  simp [Behaviour.accepts]

/-- **When the published tables agree.**  With fewer than `2^31` votes, on a database whose
    result tables were empty and from whose dictionaries the votes were counted, the tables
    agree for every party exactly if each vote that counts for an existing party has a
    candidate of a party, and an age group, education, sex and constituency that exist. -/
theorem tables_agree_iff {databases : List Database} {i : ℕ} (hdb : databases[i]? = some db)
    (hempty : ∀ k, db.lookup k = none) (hload : d.Loaded db.toDictTables)
    (hsize : map.entries.length < 2 ^ 31) :
    let stats := Statistics.calculateAll clock map { toDictionary := d }
    ∃ pi, (insertStats stats (connectAll (databases.map fun db => (db, {}))))[i]? = some pi ∧
      ((∀ p, pi.conn.committed.Agree p) ↔
        ∀ rowId vi, map.lookup rowId = some vi → d.partyId vi ∈ db.dParties →
          db.Covers d (clock rowId) vi) := by
  intro stats
  refine ⟨.connect (({} : Behaviour).store stats.rows db) {}, ?_, ?_⟩
  · rw [insertStats_connectAll]
    simp [connectAll, hdb]
  · have hlook : ∀ k, (({} : Behaviour).store stats.rows db).lookup k =
        if db.references k then counted (map.classCount d clock k) none else none :=
      lookup_store_counted hempty
    have hagree := agree_iff hload hsize (Behaviour.store_toDictTables _ _ _) hlook
    have hmem : ∀ rowId vi, map.lookup rowId = some vi ↔ ⟨rowId, vi⟩ ∈ map.entries :=
      fun rowId vi => AList.mem_lookup_iff
    simp only [PostgresInstance.connect, Connection.idle_committed, hagree, hmem]
    constructor
    · exact fun h rowId vi he hp => h _ ⟨rowId, vi⟩ he ⟨hp, rfl⟩
    · rintro h _ ⟨rowId, vi⟩ he ⟨hp, rfl⟩
      exact h rowId vi he hp

/-- With `2^31` votes of one party the tables disagree even if all ids exist: its row in
    `res_party_percent` is negative, its rows by education are not. -/
private theorem not_agree_of_wrap (hlook : ∀ k, db'.lookup k =
      if db.references k then counted (map.classCount d clock k) none else none) {p : Int32}
    (hp : p ∈ db.dParties) (hlow : 2 ^ 31 ≤ map.classCount d clock (.percent p))
    (hhigh : map.classCount d clock (.percent p) < 2 ^ 32)
    (hedu : ∀ q e, map.classCount d clock (.education q e) < 2 ^ 31) : ¬db'.Agree p := by
  rintro ⟨-, -, hsum, -, -⟩
  have hpercent : (db'.resPartyPercent.lookup p).elim 0 Int32.toInt < 0 := by
    have hrow : db'.resPartyPercent.lookup p =
        if db.references (.percent p) then counted (map.classCount d clock (.percent p)) none
        else none := hlook (.percent p)
    have href : db.references (.percent p) = true := decide_eq_true hp
    rw [hrow, if_pos href]
    obtain ⟨n, hn⟩ := Nat.exists_eq_succ_of_ne_zero
      (show map.classCount d clock (.percent p) ≠ 0 by omega)
    rw [hn] at hlow hhigh ⊢
    rw [counted_succ_none, Option.elim_some, Int32.toInt_ofNat', Int.bmod_def, Int32.size]
    omega
  have hrows : 0 ≤ Table.sum (fun k => k.1 = p) Int32.toInt db'.resPartyEducation := by
    refine Table.sum_nonneg fun e he => ?_
    have hrow : db'.resPartyEducation.lookup e.1 = some e.2 := AList.mem_lookup_iff.mpr he
    have hcount : db'.resPartyEducation.lookup e.1 =
        if db.references (.education e.1.1 e.1.2) then
          counted (map.classCount d clock (.education e.1.1 e.1.2)) none
        else none := hlook (.education e.1.1 e.1.2)
    rw [hcount] at hrow
    split at hrow
    · have hval := toInt_counted_none (hedu e.1.1 e.1.2)
      rw [hrow, Option.elim_some] at hval
      omega
    · cases hrow
  omega

end

/-- A database with two parties and a candidate of each, but without party 1. -/
def Sample.twoParties : Database where
  dParties := [2, 3]
  dCandidates := AList.insert 7 (some 2) (AList.insert 8 (some 3) ∅)
  dAge := AList.insert 1 (18, 25) (AList.insert 4 (61, 200) ∅)
  dConstituencies := [1, 3]
  dEducation := [2]
  dSex := [1, 2]
  fkPartyId := fun c p h => by
    simp only [Table.lookup_insert_eq, AList.lookup_empty] at h
    split_ifs at h <;> simp_all

/-- Two votes whose ids all exist and one for an unknown candidate, which would count for
    party 1: the tables agree, and show the two. -/
theorem tables_agree_iff_sample :
    let stats := Statistics.calculateAll Sample.clock Sample.threeVotes
      { toDictionary := Sample.twoParties.dictionary }
    ∃ pi, (insertStats stats (connectAll [(Sample.twoParties, {})]))[0]? = some pi ∧
      (∀ p, pi.conn.committed.Agree p) ∧ pi.conn.committed.resPartyPercent.lookup 2 = some 2 := by
  intro stats
  obtain ⟨pi, hpi, hagree⟩ := @tables_agree_iff Sample.twoParties Sample.twoParties.dictionary
    Sample.clock Sample.threeVotes [Sample.twoParties] 0 rfl (fun k => by cases k <;> rfl)
    Sample.twoParties.dictionary_loaded (by decide)
  have hshown : (insertStats stats (connectAll [(Sample.twoParties, {})]))[0]?.bind
      (fun pi => pi.conn.committed.resPartyPercent.lookup 2) = some 2 := by decide
  have hpi' : (insertStats stats (connectAll [(Sample.twoParties, {})]))[0]? = some pi := hpi
  rw [hpi'] at hshown
  refine ⟨pi, hpi, hagree.mpr fun rowId vi hvi hparty => ?_, hshown⟩
  simp only [Sample.threeVotes, Table.lookup_insert_eq, AList.lookup_empty] at hvi
  split_ifs at hvi with ha hb hc
  · subst ha
    obtain rfl := Option.some.inj hvi
    exact ⟨⟨2, by decide⟩, by decide, by decide, by decide, by decide⟩
  · subst hb
    obtain rfl := Option.some.inj hvi
    exact ⟨⟨2, by decide⟩, by decide, by decide, by decide, by decide⟩
  · obtain rfl := Option.some.inj hvi
    exact absurd hparty (by decide)

namespace Sample

/-- The votes of `n + n` voters for one candidate, half of them with each of two
    educations. -/
def manyVotes (n : ℕ) : VoteMap where
  entries := (List.range (n + n)).map fun i =>
    ⟨some (String.ofList (List.replicate i 'x')),
      { pesel := some "70010112345", vote := 1, votingArea := 1, gender := 1,
        education := if i < n then 1 else 2,
        rowId := some (String.ofList (List.replicate i 'x')) }⟩
  nodupKeys := by
    rw [List.NodupKeys, List.keys, List.map_map]
    refine List.nodup_range.map fun i j h => ?_
    have hlist := congrArg String.toList (Option.some.inj h)
    simpa using congrArg List.length hlist

/-- Both educations exist. -/
def twoEducations : Database := { database with dEducation := [1, 2] }

/-- The tables of a database agree after these votes have been counted with its dictionaries
    and written to it. -/
def TablesAgree (db : Database) (map : VoteMap) : Prop :=
  ∀ pi ∈ insertStats (Statistics.calculateAll clock map { toDictionary := db.dictionary })
    (connectAll [(db, {})]), ∀ p, pi.conn.committed.Agree p

end Sample

private theorem covers_manyVotes (n : ℕ) :
    ∀ e ∈ (Sample.manyVotes n).entries, Sample.twoEducations.Covers
      Sample.twoEducations.dictionary (Sample.clock e.1) e.2 := by
  intro e he
  obtain ⟨i, -, rfl⟩ := List.mem_map.mp he
  have hage : (Sample.twoEducations.dAge.lookup
      (Sample.twoEducations.dictionary.getAgeIdBasedOnAge
        (calcAgeFromPesel (Sample.clock none) (some "70010112345")))).isSome = true := by decide
  refine ⟨⟨1, rfl⟩, hage, ?_, List.mem_singleton_self _, List.mem_singleton_self _⟩
  dsimp only
  split <;> decide

private theorem classCount_percent_manyVotes (n : ℕ) :
    (Sample.manyVotes n).classCount Sample.twoEducations.dictionary Sample.clock (.percent 1) =
      n + n := by
  have hall : ∀ e ∈ (Sample.manyVotes n).entries,
      e.2.inClass Sample.twoEducations.dictionary (Sample.clock e.1) (.percent 1) = true := by
    intro e he
    obtain ⟨i, -, rfl⟩ := List.mem_map.mp he
    rfl
  rw [VoteMap.classCount, List.countP_eq_length.mpr hall]
  simp [Sample.manyVotes]

/-- One half of the votes is outside a class by education. -/
private theorem classCount_education_manyVotes_le (n : ℕ) (p e : Int32) :
    (Sample.manyVotes n).classCount Sample.twoEducations.dictionary Sample.clock
      (.education p e) ≤ n := by
  let good : ℕ → Bool := fun i => ((1 : Int32), (if i < n then 1 else 2 : Int32)) = (p, e)
  have hcount : (Sample.manyVotes n).classCount Sample.twoEducations.dictionary Sample.clock
      (.education p e) = (List.range (n + n)).countP good := by
    rw [VoteMap.classCount, Sample.manyVotes, List.countP_map]
    rfl
  have hle : ∀ q : ℕ → Bool, (List.range n).countP q ≤ n := fun q =>
    List.countP_le_length.trans_eq List.length_range
  rw [hcount, List.range_add, List.countP_append, List.countP_map]
  by_cases he : e = 1
  · have hsecond : (List.range n).countP (good ∘ fun i => n + i) = 0 := by
      simp [List.countP_eq_zero, good, he]
    rw [hsecond]
    exact hle good
  · have hfirst : (List.range n).countP good = 0 := by
      rw [List.countP_eq_zero]
      intro i hi
      simp [good, List.mem_range.mp hi, Ne.symm he]
    rw [hfirst, Nat.zero_add]
    exact hle _

/-- From `2^31` votes on, the tables disagree although every id exists. -/
private theorem not_tablesAgree_manyVotes {n : ℕ} (hlow : 2 ^ 30 ≤ n) (hhigh : n < 2 ^ 31) :
    ¬Sample.TablesAgree Sample.twoEducations (Sample.manyVotes n) := by
  intro h
  have hpercent := classCount_percent_manyVotes n
  have hmem : PostgresInstance.connect (({} : Behaviour).store (Statistics.calculateAll
      Sample.clock (Sample.manyVotes n)
      { toDictionary := Sample.twoEducations.dictionary }).rows Sample.twoEducations) {} ∈
      insertStats (Statistics.calculateAll Sample.clock (Sample.manyVotes n)
        { toDictionary := Sample.twoEducations.dictionary })
        (connectAll [(Sample.twoEducations, {})]) := by
    rw [insertStats_connectAll]
    exact List.mem_singleton_self _
  exact not_agree_of_wrap (lookup_store_counted fun k => by cases k <;> rfl)
    (show (1 : Int32) ∈ Sample.twoEducations.dParties by decide) (by omega) (by omega)
    (fun p e => Nat.lt_of_le_of_lt (classCount_education_manyVotes_le n p e) hhigh) (h _ hmem 1)

/-- The tables disagree about one vote with an education that is not in `d_education`, which
    is missing from `res_party_education`, and about `2^31` votes whose ids all exist. -/
theorem tables_can_disagree :
    ¬Sample.TablesAgree Sample.database (Sample.votes 7) ∧
      (∀ e ∈ (Sample.manyVotes (2 ^ 30)).entries, Sample.twoEducations.Covers
        Sample.twoEducations.dictionary (Sample.clock e.1) e.2) ∧
      ¬Sample.TablesAgree Sample.twoEducations (Sample.manyVotes (2 ^ 30)) := by
  refine ⟨fun h => ?_, covers_manyVotes _, not_tablesAgree_manyVotes (by omega) (by omega)⟩
  exact absurd (h _ (List.mem_cons_self ..) 1) (by decide)

end RsoVoting.Aggregator
