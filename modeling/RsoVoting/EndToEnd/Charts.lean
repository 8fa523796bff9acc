import RsoVoting.Aggregator.Ledger
import RsoVoting.Aggregator.ResultTables
import RsoVoting.Web2py.PercentageCharts

namespace RsoVoting.EndToEnd

open RsoVoting RsoVoting.Aggregator RsoVoting.Web2py RsoVoting.Shares

/-!
# What the charts make of the published counts

The aggregator never clears its statistics, so over an unchanged vote store the tables of
the results database show every vote once per cycle.  The web application reads these
tables with a query per chart.  This file follows the counts from the store to the charts:

* `partyRows` / `candidateRows` / `sexRows` — the queries of the percentage charts;
* `getFrequency` — the turnout;
* `Published` — a new aggregator has gone through cycles over one store;
* `lookup_published` — each row shows its votes once per cycle;
* `charts_show_shares` — the percentage charts show the shares of the votes in the store all
  the same, for the number of cycles cancels out;
* `frequency_grows` — in the turnout it does not.
-/

/-! ### The queries -/

/-- The names in the dictionary tables, which the aggregator does not read. -/
structure Names where
  party : Int32 → String
  /-- `name` and `surname`. -/
  candidate : Int32 → String × String

/-- The label of a candidate: `lastname + ", " + name`. -/
def Names.label (names : Names) (candidateId : Int32) : String :=
  (names.candidate candidateId).2 ++ ", " ++ (names.candidate candidateId).1

/-- `d_parties JOIN res_party_percent`. -/
def partyRows (names : Names) (db : Database) : List PartyRow :=
  ((Table.toPairs db.resPartyPercent).filter fun e => e.1 ∈ db.dParties).map fun e =>
    { name := names.party e.1, votesSum := e.2.toInt }

/-- `d_candidates JOIN res_party_candidates`, for the candidates of a party. -/
def candidateRows (names : Names) (db : Database) (partyId : Int32) : List CandidateRow :=
  ((Table.toPairs db.resPartyCandidates).filter fun e =>
    db.dCandidates.lookup e.1 = some (some partyId)).map fun e =>
    { name := (names.candidate e.1).1, lastname := (names.candidate e.1).2
      votesSum := e.2.toInt }

/-- `d_parties JOIN res_party_sex JOIN d_sex`, for one sex. -/
def sexRows (names : Names) (db : Database) (sexId : Int32) : List PartyRow :=
  ((Table.toPairs db.resPartySex).filter fun e =>
    e.1.1 ∈ db.dParties ∧ e.1.2 ∈ db.dSex ∧ e.1.2 = sexId).map fun e =>
    { name := names.party e.1.1, votesSum := e.2.toInt }

/-- `SELECT SUM(votes_sum) FROM res_party_candidates`, null without rows. -/
def selectSum (db : Database) : Option ℤ :=
  if Table.toPairs db.resPartyCandidates = [] then none
  else some (Table.sum (fun _ => true) Int32.toInt db.resPartyCandidates)

/-- `getFrequency()`: `100*result[0][0]/500.0`, `none` for the `TypeError` of a null. -/
def getFrequency (db : Database) : Option ℚ :=
  (selectSum db).map fun sum : ℤ => 100 * (sum : ℚ) / 500

/-! ### Percentages of multiplied counts -/

/-- The data of a chart: each of `keys`, in some order, under its label and with its share of
    the votes of all of them, as a percentage. -/
def Shows (data : PercentageData) (round : ℚ → ℤ) (label : Int32 → String)
    (votes : Int32 → ℕ) (keys : List Int32) : Prop :=
  data.labels.length = data.votes.length ∧
  (data.labels.zip data.votes).Perm (keys.map fun k =>
    (label k, round (exactPercent (keys.map fun k => (votes k : ℤ)) (votes k))))

/-- A factor common to all counts cancels out. -/
theorem exactPercent_mul {m : ℤ} (hm : m ≠ 0) (numbers : List ℤ) (number : ℤ) :
    exactPercent (numbers.map (m * ·)) (m * number) = exactPercent numbers number := by
  have hm' : (m : ℚ) ≠ 0 := by exact_mod_cast hm
  have hsum : (numbers.map (m * ·)).sum = m * numbers.sum := by
    rw [List.sum_map_mul_left, List.map_id']
  unfold exactPercent
  rw [hsum]
  push_cast
  rw [mul_assoc, mul_div_mul_left _ _ hm']

/-- The two loops show the shares, for rows whose counts have been multiplied. -/
theorem percentageData_shows {percent : ℤ → ℤ → Option ℤ} {round : ℚ → ℤ}
    (hround : ∀ numbers : List ℤ, 0 < numbers.sum → ∀ number,
      percent numbers.sum number = some (round (exactPercent numbers number)))
    {rows : List (String × ℤ)} {m : ℤ} (hm : 0 < m) {label : Int32 → String} {votes : Int32 → ℕ}
    {keys : List Int32} (hpos : ∀ k ∈ keys, 0 < votes k)
    (hrows : rows.Perm (keys.map fun k => (label k, m * (votes k : ℤ)))) :
    ∃ data, percentageData percent rows = some data ∧ Shows data round label votes keys := by
  by_cases hkeys : keys = []
  · -- no row, and no division
    subst hkeys
    obtain rfl := hrows.eq_nil
    exact ⟨_, rfl, rfl, List.Perm.refl []⟩
  · -- the counts are those of the keys, multiplied
    have hnumbers : (rows.map Prod.snd).Perm
        ((keys.map fun k => (votes k : ℤ)).map (m * ·)) := by
      have hsnd := hrows.map Prod.snd
      rwa [List.map_map, show Prod.snd ∘ (fun k => (label k, m * (votes k : ℤ))) =
        (m * ·) ∘ fun k => (votes k : ℤ) from rfl, ← List.map_map] at hsnd
    have hsum : 0 < (rows.map Prod.snd).sum := by
      rw [hnumbers.sum_eq]
      apply List.sum_pos
      · intro number hnumber
        rw [List.map_map, List.mem_map] at hnumber
        obtain ⟨k, hk, rfl⟩ := hnumber
        exact Int.mul_pos hm (Int.natCast_pos.mpr (hpos k hk))
      · simp [hkeys]
    have hexact : ∀ k, exactPercent (rows.map Prod.snd) (m * (votes k : ℤ)) =
        exactPercent (keys.map fun k => (votes k : ℤ)) (votes k) := by
      intro k
      rw [← exactPercent_mul hm.ne' (keys.map fun k => (votes k : ℤ))]
      unfold exactPercent
      rw [hnumbers.sum_eq]
    refine ⟨_, percentageData_eq (hround _ hsum), by simp, ?_⟩
    rw [List.map_map, List.zip_map']
    have hperm := hrows.map fun row : String × ℤ =>
      (row.1, round (exactPercent (rows.map Prod.snd) row.2))
    rw [List.map_map] at hperm
    apply hperm.trans
    apply List.Perm.of_eq
    apply List.map_congr_left
    intro k _
    show (label k, round (exactPercent (rows.map Prod.snd) (m * (votes k : ℤ)))) = _
    rw [hexact]

/-- The integer division rounds the exact percentages down. -/
theorem integerPercent_eq (numbers : List ℤ) (hsum : 0 < numbers.sum) (number : ℤ) :
    integerPercent numbers.sum number = some ⌊exactPercent numbers number⌋ := by
  rw [integerPercent, if_neg hsum.ne', fdiv_eq_floor hsum]

/-- The division of floats rounds them to the nearest integer. -/
theorem roundedPercent_eq (numbers : List ℤ) (hsum : 0 < numbers.sum) (number : ℤ) :
    roundedPercent numbers.sum number = some (roundHalfAway (exactPercent numbers number)) := by
  rw [roundedPercent, if_neg hsum.ne']
  rfl

/-! ### The rows after some cycles -/

/-- A new aggregator, over databases without results, has gone through cycles over one and
    the same store; no counter has overflown. -/
structure Published (databases : List Database) (content : VoteMap) (cycles : List Cycle) :
    Prop where
  empty : ∀ db ∈ databases, ∀ k, db.lookup k = none
  unchanged : ∀ c ∈ cycles, ∀ rowId, c.content.lookup rowId = content.lookup rowId
  ran : cycles ≠ []
  size : cycles.length * content.entries.length < 2 ^ 31

/-- **Induction over the cycles.**  A row that is accepted shows the total of the cycles. -/
theorem lookup_databases_loop {databases : List Database}
    (hempty : ∀ db ∈ databases, ∀ k, db.lookup k = none) (cycles : List Cycle) {i : ℕ}
    {db : Database}
    (hdb : (RsoAggregator.loop { databases } (cycles.map Cycle.toPass)).databases[i]? = some db)
    (k : ResultKey) :
    db.lookup k = if db.references k = true then
      counted (Cycle.total (RsoAggregator.dictionary { databases }) k cycles) none else none := by
  induction cycles using List.reverseRecOn generalizing db with
  | nil =>
    have hnone := hempty db (List.mem_of_getElem? hdb) k
    rw [hnone]
    split <;> rfl
  | append_singleton cycles c ih =>
    rw [List.map_append, RsoAggregator.loop_append] at hdb
    obtain ⟨db₁, hdb₁, htables, hrow⟩ := RsoAggregator.lookup_databases_init hdb
    have hwrites : RsoAggregator.writes
        (RsoAggregator.loop { databases } (cycles.map Cycle.toPass)) c.toPass i = true := by
      apply RsoAggregator.writes_of_answers hdb₁
      · rw [c.postgres_ok]
      · intro dictName
        rw [c.postgres_ok]
        cases dictName <;> decide
    -- the entry that the last cycle writes
    obtain ⟨hstats, -⟩ := @lookup_loop { databases } _ rfl (.inl rfl) (cycles ++ [c])
    have hentry := hstats k
    rw [List.map_append, RsoAggregator.loop_append, Statistics.lookup_new] at hentry
    rw [hrow, hwrites, ih hdb₁, c.postgres_ok, htables]
    simp only [Behaviour.accepts, Bool.true_and]
    by_cases href : db₁.references k = true
    · have hentry' : (RsoAggregator.init (RsoAggregator.loop { databases }
          (cycles.map Cycle.toPass)) c.toPass).stats.lookup k = _ := hentry
      have htotal : Cycle.total (RsoAggregator.dictionary { databases }) k (cycles ++ [c]) =
          c.count (RsoAggregator.dictionary { databases }) k +
            Cycle.total (RsoAggregator.dictionary { databases }) k cycles := by
        simp [Cycle.total, Nat.add_comm]
      simp only [href, if_true, hentry']
      cases hn : Cycle.total (RsoAggregator.dictionary { databases }) k (cycles ++ [c]) with
      | zero =>
        have hzero : Cycle.total (RsoAggregator.dictionary { databases }) k cycles = 0 := by
          omega
        simp [hzero]
      | succ n => simp [counted_succ_none]
    · simp [href]

section Published

variable {databases : List Database} {content : VoteMap} {cycles : List Cycle} {db : Database}

/-- If the clock does not matter, every cycle counts the same. -/
theorem Published.total_eq (h : Published databases content cycles) {d : Dictionary}
    {k : ResultKey} {n : ℕ} (hn : ∀ clock, content.classCount d clock k = n) :
    Cycle.total d k cycles = cycles.length * n := by
  have hcount : ∀ c ∈ cycles, c.count d k = n := fun c hc =>
    (VoteMap.classCount_congr (h.unchanged c hc) d c.clock k).trans (hn c.clock)
  rw [Cycle.total, List.map_congr_left hcount, List.map_const', List.sum_replicate_nat]

/-- **What a row shows.**  It is there if it is accepted and has a vote, and shows each of its
    votes once per cycle. -/
theorem Published.lookup (h : Published databases content cycles)
    (hdb : db ∈ (RsoAggregator.loop { databases } (cycles.map Cycle.toPass)).databases)
    {k : ResultKey} {n : ℕ}
    (hn : ∀ clock, content.classCount (RsoAggregator.dictionary { databases }) clock k = n) :
    ((db.lookup k).isSome = true ↔ db.references k = true ∧ 0 < n) ∧
      ∀ v, db.lookup k = some v → v.toInt = cycles.length * n := by
  obtain ⟨i, hi⟩ := List.getElem?_of_mem hdb
  have hrow := lookup_databases_loop h.empty cycles hi k
  rw [h.total_eq hn] at hrow
  have hlength : 0 < cycles.length := List.length_pos_iff.mpr h.ran
  have hlt : cycles.length * n < 2 ^ 31 := by
    have hle : n ≤ content.entries.length := by
      rw [← hn fun _ => { now := 0, parse := fun _ => none }]
      exact List.countP_le_length
    exact Nat.lt_of_le_of_lt (Nat.mul_le_mul_left _ hle) h.size
  constructor
  · rw [hrow]
    by_cases href : db.references k = true
    · simp [href, isSome_counted, hlength]
    · simp [href]
  · intro v hv
    have href : db.references k = true := by
      by_contra href
      rw [hrow, if_neg href] at hv
      cases hv
    rw [hrow, if_pos href] at hv
    have hvalue := toInt_counted_none hlt
    rw [hv] at hvalue
    exact_mod_cast hvalue

/-! ### The charts -/

/-- The votes of a store for a candidate. -/
def candidateVotes (content : VoteMap) (candidateId : Int32) : ℕ :=
  content.entries.countP fun e => e.2.vote = candidateId

/-- The votes of a store that count for a party. -/
def partyVotes (d : Dictionary) (content : VoteMap) (partyId : Int32) : ℕ :=
  content.entries.countP fun e => d.partyId e.2 = partyId

/-- The votes of a store that count for a party and are of one sex. -/
def sexVotes (d : Dictionary) (content : VoteMap) (sexId partyId : Int32) : ℕ :=
  content.entries.countP fun e => (d.partyId e.2, e.2.gender) = (partyId, sexId)

/-- The parties with votes. -/
def partiesWith (db : Database) (votes : Int32 → ℕ) : List Int32 :=
  db.dParties.dedup.filter fun p => 0 < votes p

/-- The candidates of a party with votes. -/
def candidatesWith (db : Database) (partyId : Int32) (votes : Int32 → ℕ) : List Int32 :=
  db.dCandidates.keys.filter fun c => db.dCandidates.lookup c = some (some partyId) ∧ 0 < votes c

theorem mem_partiesWith {votes : Int32 → ℕ} {p : Int32} :
    p ∈ partiesWith db votes ↔ p ∈ db.dParties ∧ 0 < votes p := by
  simp [partiesWith]

theorem mem_candidatesWith {votes : Int32 → ℕ} {partyId c : Int32} :
    c ∈ candidatesWith db partyId votes ↔
      db.dCandidates.lookup c = some (some partyId) ∧ 0 < votes c := by
  rw [candidatesWith, List.mem_filter, decide_eq_true_iff, and_iff_right_iff_imp]
  rintro ⟨hlookup, -⟩
  exact AList.mem_keys.mp (AList.lookup_isSome.mp (Option.isSome_of_eq_some hlookup))

section Rows

variable (h : Published databases content cycles)
  (hdb : db ∈ (RsoAggregator.loop { databases } (cycles.map Cycle.toPass)).databases)
  (names : Names)

include h hdb

/-- The rows of the query for the parties. -/
theorem Published.perm_partyRows :
    let votes := partyVotes (RsoAggregator.dictionary { databases }) content
    ((partyRows names db).map fun row => (row.name, row.votesSum)).Perm
      ((partiesWith db votes).map fun p => (names.party p, cycles.length * (votes p : ℤ))) := by
  intro votes
  have hrow := fun p => h.lookup hdb (k := .percent p) (n := votes p) fun _ => rfl
  rw [partyRows, List.map_map]
  apply Table.perm_map_filter_toPairs (p := fun p => decide (p ∈ db.dParties))
  · exact (List.nodup_dedup _).filter _
  · intro p
    rw [mem_partiesWith, decide_eq_true_iff]
    apply and_congr_right
    intro hp
    rw [show (db.resPartyPercent.lookup p).isSome = true ↔ _ from (hrow p).1]
    exact (and_iff_right (decide_eq_true hp)).symm
  · intro p v _ hv
    exact congrArg (names.party p, ·) ((hrow p).2 v hv)

/-- The rows of the query for the candidates of a party. -/
theorem Published.perm_candidateRows (partyId : Int32) :
    ((candidateRows names db partyId).map fun row =>
        (row.lastname ++ ", " ++ row.name, row.votesSum)).Perm
      ((candidatesWith db partyId (candidateVotes content)).map fun c =>
        (names.label c, cycles.length * (candidateVotes content c : ℤ))) := by
  have hrow := fun c => h.lookup hdb (k := .candidate c) (n := candidateVotes content c)
    fun _ => rfl
  rw [candidateRows, List.map_map]
  apply Table.perm_map_filter_toPairs
    (p := fun c => decide (db.dCandidates.lookup c = some (some partyId)))
  · exact (AList.keys_nodup _).filter _
  · intro c
    rw [mem_candidatesWith, decide_eq_true_iff]
    apply and_congr_right
    intro hc
    rw [show (db.resPartyCandidates.lookup c).isSome = true ↔ _ from (hrow c).1]
    exact (and_iff_right (Option.isSome_of_eq_some hc)).symm
  · intro c v _ hv
    exact congrArg (names.label c, ·) ((hrow c).2 v hv)

/-- The rows of the query for one sex, which is in `d_sex`. -/
theorem Published.perm_sexRows {sexId : Int32} (hsex : sexId ∈ db.dSex) :
    let votes := sexVotes (RsoAggregator.dictionary { databases }) content sexId
    ((sexRows names db sexId).map fun row => (row.name, row.votesSum)).Perm
      ((partiesWith db votes).map fun p => (names.party p, cycles.length * (votes p : ℤ))) := by
  intro votes
  have hrow := fun p => h.lookup hdb (k := .sex p sexId) (n := votes p) fun _ => rfl
  -- the rows of the table are told by a party and the sex
  have hkeys : ((partiesWith db votes).map fun p => (names.party p, cycles.length * (votes p : ℤ)))
      = ((partiesWith db votes).map fun p => (p, sexId)).map fun k =>
        (names.party k.1, cycles.length * (votes k.1 : ℤ)) := by
    rw [List.map_map]
    rfl
  rw [sexRows, List.map_map, hkeys]
  apply Table.perm_map_filter_toPairs
    (p := fun k : Int32 × Int32 => decide (k.1 ∈ db.dParties ∧ k.2 ∈ db.dSex ∧ k.2 = sexId))
  · apply List.Nodup.map
    · exact fun p p' hp => (Prod.mk.inj hp).1
    · exact (List.nodup_dedup _).filter _
  · rintro ⟨p, s⟩
    rw [List.mem_map, decide_eq_true_iff]
    constructor
    · rintro ⟨p', hp', heq⟩
      obtain ⟨rfl, rfl⟩ := Prod.mk.inj heq
      obtain ⟨hmem, hpos⟩ := mem_partiesWith.mp hp'
      exact ⟨⟨hmem, hsex, rfl⟩, (hrow p').1.mpr ⟨decide_eq_true ⟨hmem, hsex⟩, hpos⟩⟩
    · rintro ⟨⟨hmem, -, rfl⟩, hsome⟩
      exact ⟨p, mem_partiesWith.mpr ⟨hmem, ((hrow p).1.mp hsome).2⟩, rfl⟩
  · rintro ⟨p, s⟩ v hk hv
    obtain ⟨-, -, rfl⟩ := of_decide_eq_true hk
    exact congrArg (names.party p, ·) ((hrow p).2 v hv)

end Rows

end Published

/-- **The percentage charts show the shares of the votes in the store.**  An aggregator has
    gone through any number of cycles over one store, so that its tables show every vote many
    times.  Whichever database the charts are made from, and in whatever order the queries
    return their rows, each chart shows the parties or candidates with votes that it is
    about, and the percentages are those of the votes in the store, rounded. -/
theorem charts_show_shares {databases : List Database} {content : VoteMap} {cycles : List Cycle}
    (h : Published databases content cycles) {db : Database}
    (hdb : db ∈ (RsoAggregator.loop { databases } (cycles.map Cycle.toPass)).databases)
    (names : Names) :
    let d := RsoAggregator.dictionary { databases }
    (∀ results, results.Perm (partyRows names db) →
      ∃ data, getPartyPercentageData results = some data ∧
        Shows data roundHalfAway names.party (partyVotes d content)
          (partiesWith db (partyVotes d content))) ∧
    (∀ partyId results, results.Perm (candidateRows names db partyId) →
      ∃ data, getCandidatePercentageData results = some data ∧
        Shows data Int.floor names.label (candidateVotes content)
          (candidatesWith db partyId (candidateVotes content))) ∧
    (∀ sexId ∈ db.dSex, ∀ results, results.Perm (sexRows names db sexId) →
      ∃ data, getSexPercentageData results = some data ∧
        Shows data Int.floor names.party (sexVotes d content sexId)
          (partiesWith db (sexVotes d content sexId))) := by
  intro d
  have hcycles : (0 : ℤ) < cycles.length := by
    exact_mod_cast List.length_pos_iff.mpr h.ran
  refine ⟨?_, ?_, ?_⟩
  · intro results hresults
    apply percentageData_shows roundedPercent_eq hcycles
    · exact fun p hp => (mem_partiesWith.mp hp).2
    · exact (hresults.map _).trans (h.perm_partyRows hdb names)
  · intro partyId results hresults
    apply percentageData_shows integerPercent_eq hcycles
    · exact fun c hc => (mem_candidatesWith.mp hc).2
    · exact (hresults.map _).trans (h.perm_candidateRows hdb names partyId)
  · intro sexId hsex results hresults
    apply percentageData_shows integerPercent_eq hcycles
    · exact fun p hp => (mem_partiesWith.mp hp).2
    · exact (hresults.map _).trans (h.perm_sexRows hdb names hsex)

namespace Sample

/-- Two votes for a candidate of party 2, one for a candidate of party 3 and one for a
    candidate that does not exist, on two instances. -/
def store : List MongoInstance :=
  [{ documents := [Aggregator.Sample.vote "a" 7 1, Aggregator.Sample.vote "b" 7 1,
      Aggregator.Sample.vote "c" 8 1] },
   { documents := [Aggregator.Sample.vote "d" 9 1, Aggregator.Sample.vote "a" 7 1] }]

theorem store_connected : ∀ mi ∈ store, mi.Connected := by decide

theorem store_wellFormed : WellFormed store := by decide

theorem store_hasRowId : (collected store).lookup none = none := by decide

theorem store_stored_iff (rowId : Option String) (vi : VoteInfo) :
    (collected store).lookup rowId = some vi ↔ ∃ mi ∈ store, mi.Stores rowId vi := by
  rw [lookup_collected store_wellFormed (by decide)]
  exact exists_congr fun mi => and_congr_right fun hmi => and_iff_right (store_connected mi hmi)

/-- A cycle over this store. -/
def cycle : Cycle :=
  { Aggregator.Sample.cycle with
    mongo := store
    content := collected store
    mongo_connected := store_connected
    wellFormed := store_wellFormed
    stored_iff := store_stored_iff
    hasRowId := store_hasRowId }

/-- The databases after two such cycles. -/
def databases : List Database :=
  (RsoAggregator.loop { databases := [Aggregator.Sample.twoParties] }
    ([cycle, cycle].map Cycle.toPass)).databases

theorem published : Published [Aggregator.Sample.twoParties] cycle.content [cycle, cycle] where
  empty := by
    intro db hdb k
    obtain rfl := List.mem_singleton.mp hdb
    cases k <;> rfl
  unchanged := by
    intro c hc rowId
    simp only [List.mem_cons, List.not_mem_nil, or_false, or_self] at hc
    rw [hc]
  ran := List.cons_ne_nil _ _
  size := by decide

def names : Names where
  party := fun p => if p = 2 then "A" else "B"
  candidate := fun _ => ("Anna", "Kowalska")

end Sample

/-- After two cycles over three valid votes, both charts show two thirds and one third: to
    the nearest integer, and rounded down. -/
theorem charts_show_shares_sample : ∃ db ∈ Sample.databases,
    (∃ data, getPartyPercentageData (partyRows Sample.names db) = some data ∧
      (data.labels.zip data.votes).Perm [("A", 67), ("B", 33)]) ∧
    (∃ data, getSexPercentageData (sexRows Sample.names db 1) = some data ∧
      (data.labels.zip data.votes).Perm [("A", 66), ("B", 33)]) := by
  obtain ⟨db, hdb⟩ : ∃ db, Sample.databases = [db] := List.length_eq_one_iff.mp (by decide)
  have hmem : db ∈ Sample.databases := hdb ▸ List.mem_singleton_self db
  have hparties : db.dParties = [2, 3] := by
    have hmap : Sample.databases.map (fun db => db.dParties) = [[2, 3]] := by decide +kernel
    rw [hdb] at hmap
    exact (List.cons.inj hmap).1
  have hsex : db.dSex = [1, 2] := by
    have hmap : Sample.databases.map (fun db => db.dSex) = [[1, 2]] := by decide +kernel
    rw [hdb] at hmap
    exact (List.cons.inj hmap).1
  obtain ⟨hparty, -, hsexes⟩ := charts_show_shares Sample.published hmem Sample.names
  refine ⟨db, hmem, ?_, ?_⟩
  · obtain ⟨data, hdata, -, hshows⟩ := hparty _ (List.Perm.refl _)
    refine ⟨data, hdata, hshows.trans (List.Perm.of_eq ?_)⟩
    rw [partiesWith, hparties]
    decide +kernel
  · obtain ⟨data, hdata, -, hshows⟩ := hsexes 1 (by rw [hsex]; decide) _ (List.Perm.refl _)
    refine ⟨data, hdata, hshows.trans (List.Perm.of_eq ?_)⟩
    rw [partiesWith, hparties]
    decide +kernel

/-! ### The turnout -/

/-- The votes of a store for candidates that exist. -/
def validVotes (db : Database) (content : VoteMap) : ℕ :=
  content.entries.countP fun e => (db.dCandidates.lookup e.2.vote).isSome

section Frequency

variable {databases : List Database} {content : VoteMap} {cycles : List Cycle} {db : Database}

/-- The results of the candidates add up to the valid votes, once per cycle. -/
theorem Published.sum_resPartyCandidates (h : Published databases content cycles)
    (hdb : db ∈ (RsoAggregator.loop { databases } (cycles.map Cycle.toPass)).databases) :
    Table.sum (fun _ => true) Int32.toInt db.resPartyCandidates =
      cycles.length * (validVotes db content : ℤ) := by
  obtain ⟨i, hi⟩ := List.getElem?_of_mem hdb
  -- the votes as they have been counted
  let votes := (List.replicate cycles.length content.entries).flatten
  have hcount : ∀ p : (Sigma fun _ : Option String => VoteInfo) → Bool,
      votes.countP p = cycles.length * content.entries.countP p := by
    intro p
    rw [List.countP_flatten, List.map_replicate, List.sum_replicate_nat]
  have hrow : ∀ c, db.resPartyCandidates.lookup c =
      if (db.dCandidates.lookup c).isSome = true then
        counted (votes.countP fun e => e.2.vote = c) none else none := by
    intro c
    have hc := lookup_databases_loop h.empty cycles hi (.candidate c)
    rwa [h.total_eq (n := candidateVotes content c) fun _ => rfl, candidateVotes, ← hcount] at hc
  have hsize : ∀ p : (Sigma fun _ : Option String => VoteInfo) → Bool,
      votes.countP p < 2 ^ 31 := by
    intro p
    rw [hcount]
    exact Nat.lt_of_le_of_lt (Nat.mul_le_mul_left _ List.countP_le_length) h.size
  rw [Table.sum_of_lookup_tally (q := fun c => (db.dCandidates.lookup c).isSome)
    (fun e : Sigma fun _ : Option String => VoteInfo => e.2.vote) votes hrow
    (fun c _ hn => toInt_iterate_one (Nat.lt_of_le_of_lt hn (hsize _))) fun _ => true]
  simp only [Bool.and_true]
  rw [hcount]
  push_cast
  rfl

/-- The table is empty exactly if no vote is valid. -/
theorem Published.resPartyCandidates_eq_nil_iff (h : Published databases content cycles)
    (hdb : db ∈ (RsoAggregator.loop { databases } (cycles.map Cycle.toPass)).databases) :
    Table.toPairs db.resPartyCandidates = [] ↔ validVotes db content = 0 := by
  have hsome := fun c => (h.lookup hdb (k := .candidate c) (n := candidateVotes content c)
    fun _ => rfl).1
  rw [List.eq_nil_iff_forall_not_mem, validVotes, List.countP_eq_zero]
  constructor
  · intro hempty e he hvalid
    have hpos : 0 < candidateVotes content e.2.vote :=
      List.countP_pos_iff.mpr ⟨e, he, decide_eq_true rfl⟩
    obtain ⟨v, hv⟩ := Option.isSome_iff_exists.mp ((hsome e.2.vote).mpr ⟨hvalid, hpos⟩)
    exact hempty (e.2.vote, v) (Table.mem_toPairs.mpr hv)
  · rintro hinvalid ⟨c, v⟩ hmem
    obtain ⟨hvalid, hpos⟩ :=
      (hsome c).mp (Option.isSome_of_eq_some (Table.mem_toPairs.mp hmem))
    obtain ⟨e, he, hvote⟩ := List.countP_pos_iff.mp hpos
    rw [← of_decide_eq_true hvote] at hvalid
    exact hinvalid e he hvalid

/-- **The turnout grows with every cycle.**  `getFrequency` divides the sum of a result table
    by a constant, so over an unchanged store it shows the turnout times the number of cycles;
    it fails as long as no vote is for an existing candidate. -/
theorem frequency_grows (h : Published databases content cycles)
    (hdb : db ∈ (RsoAggregator.loop { databases } (cycles.map Cycle.toPass)).databases) :
    getFrequency db =
      if validVotes db content = 0 then none
      else some ((cycles.length : ℚ) * (100 * (validVotes db content : ℚ) / 500)) := by
  have hnil := h.resPartyCandidates_eq_nil_iff hdb
  rw [getFrequency, selectSum]
  by_cases hzero : validVotes db content = 0
  · rw [if_pos (hnil.mpr hzero), if_pos hzero]
    rfl
  · rw [if_neg (fun hempty => hzero (hnil.mp hempty)), if_neg hzero, Option.map_some,
      h.sum_resPartyCandidates hdb]
    push_cast
    ring_nf

end Frequency

/-- After two cycles over three valid votes, the turnout is that of six. -/
theorem frequency_grows_sample : ∃ db ∈ Sample.databases,
    getFrequency db = some ((2 : ℚ) * (100 * 3 / 500)) := by
  obtain ⟨db, hdb⟩ : ∃ db, Sample.databases = [db] := List.length_eq_one_iff.mp (by decide)
  have hmem : db ∈ Sample.databases := hdb ▸ List.mem_singleton_self db
  have hvalid : validVotes db Sample.cycle.content = 3 := by
    have hmap : Sample.databases.map (fun db => validVotes db Sample.cycle.content) = [3] := by
      decide +kernel
    rw [hdb] at hmap
    exact (List.cons.inj hmap).1
  have hfrequency := frequency_grows Sample.published hmem
  rw [hvalid, if_neg (by norm_num)] at hfrequency
  exact ⟨db, hmem, hfrequency.trans (by norm_num)⟩

end RsoVoting.EndToEnd
