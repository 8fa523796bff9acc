import RsoVoting.DataGenerator.GetPesel
import RsoVoting.Aggregator.ExactCount
import RsoVoting.Aggregator.PostgresHandler
import RsoVoting.Aggregator.MongoHandler
import RsoVoting.TwoPhase.TwoPhaseCommitActor

namespace RsoVoting.DataGenerator

open RsoVoting RsoVoting.Calendar RsoVoting.DateFormat RsoVoting.Aggregator

/-!
# Generated votes

The data generator draws each field of a vote from the ids of a dictionary table of its own
database, and posts the votes as JSON objects.  The aggregator reads them from the documents
that have been stored, and writes their counts to tables whose foreign keys refer to the
dictionary tables of another database.

* `VoteEntity` / `getRandomData` — the votes, from what the random generators draw;
* `VoteEntity.json` — the object that is posted for a vote;
* `readVote_withIds` — the aggregator reads every field back, whatever ids the servlet adds;
* `isDigit_getPesel` — a Pesel of the generator has digits only, also where it encodes no
  date;
* `generated_vote_is_counted` — so every generated vote is counted in all six tables, exactly
  if its candidate has a party or there is a party 0.
-/

/-! ### The generator -/

/-- A vote as it is generated. -/
structure VoteEntity where
  pesel : String
  vote : Int32
  constituency : Int32
  gender : Int32
  education : Int32
deriving DecidableEq, Repr

/-- `SerializeObject`: the properties under their names. -/
def VoteEntity.json (v : VoteEntity) : Document where
  pesel := some (.string v.pesel)
  vote := some (.int32 v.vote)
  constituency := some (.int32 v.constituency)
  gender := some (.int32 v.gender)
  education := some (.int32 v.education)

/-- What `GetDictionaryId` reads: the ids of the four tables. -/
structure DictionaryIds where
  candidates : List Int32
  constituencies : List Int32
  sexes : List Int32
  educations : List Int32

/-- What is drawn for one vote: two dates and two numbers for the Pesel, and a number for each
    `randId.Next`. -/
structure Draw where
  monthDate : Date
  dayDate : Date
  year : ℕ
  tail : ℕ
  vote : ℕ
  constituency : ℕ
  gender : ℕ
  education : ℕ
  year_range : 20 ≤ year ∧ year ≤ 98
  tail_range : 10000 ≤ tail ∧ tail ≤ 99999

/-- `ids[randId.Next(ids.Count)]`, from a number that is brought below the bound of `Next`;
    `none` for the `ArgumentOutOfRangeException` of an empty list. -/
def pick (ids : List Int32) (draw : ℕ) : Option Int32 := ids[draw % ids.length]?

/-- The five `With`s of the builder, for one vote. -/
def voteEntity (ids : DictionaryIds) (draw : Draw) : Option VoteEntity := do
  let pesel := getPesel draw.monthDate draw.dayDate draw.year draw.tail
  let vote ← pick ids.candidates draw.vote
  let constituency ← pick ids.constituencies draw.constituency
  let gender ← pick ids.sexes draw.gender
  let education ← pick ids.educations draw.education
  return { pesel, vote, constituency, gender, education }

/-- `GetRandomData(numberOfVotes)`, with what is drawn for each of the votes. -/
def getRandomData (ids : DictionaryIds) (draws : List Draw) : Option (List VoteEntity) :=
  draws.mapM (voteEntity ids)

/-- An id that has been picked is one of the table. -/
theorem mem_of_pick {ids : List Int32} {draw : ℕ} {id : Int32} (h : pick ids draw = some id) :
    id ∈ ids :=
  List.mem_of_getElem? h

theorem isSome_pick {ids : List Int32} {draw : ℕ} : (pick ids draw).isSome = true ↔ ids ≠ [] := by
  rw [pick, isSome_getElem?, ← List.length_pos_iff]
  constructor
  · exact fun h => Nat.lt_of_le_of_lt (Nat.zero_le _) h
  · exact Nat.mod_lt draw

theorem isSome_voteEntity {ids : DictionaryIds} {draw : Draw} :
    (voteEntity ids draw).isSome = true ↔
      ids.candidates ≠ [] ∧ ids.constituencies ≠ [] ∧ ids.sexes ≠ [] ∧ ids.educations ≠ [] := by
  rw [← @isSome_pick ids.candidates draw.vote, ← @isSome_pick _ draw.constituency,
    ← @isSome_pick _ draw.gender, ← @isSome_pick _ draw.education]
  unfold voteEntity
  cases pick ids.candidates draw.vote <;> cases pick ids.constituencies draw.constituency <;>
    cases pick ids.sexes draw.gender <;> cases pick ids.educations draw.education <;> simp

/-- The generator fails exactly if there are votes to make and a table is empty. -/
theorem isSome_getRandomData {ids : DictionaryIds} {draws : List Draw} :
    (getRandomData ids draws).isSome = true ↔ draws = [] ∨
      ids.candidates ≠ [] ∧ ids.constituencies ≠ [] ∧ ids.sexes ≠ [] ∧ ids.educations ≠ [] := by
  induction draws with
  | nil => simp [getRandomData]
  | cons draw draws ih =>
    have hcons : (getRandomData ids (draw :: draws)).isSome = true ↔
        (voteEntity ids draw).isSome = true ∧ (getRandomData ids draws).isSome = true := by
      unfold getRandomData
      rw [List.mapM_cons]
      cases voteEntity ids draw <;> cases draws.mapM (voteEntity ids) <;> simp
    rw [hcons, isSome_voteEntity, ih]
    simp only [reduceCtorEq, false_or]
    exact and_iff_left_of_imp Or.inr

/-- Every vote is made from ids of the tables, and from the Pesel of a draw. -/
theorem mem_of_getRandomData {ids : DictionaryIds} {draws : List Draw} {votes : List VoteEntity}
    (h : getRandomData ids draws = some votes) {v : VoteEntity} (hv : v ∈ votes) :
    (v.vote ∈ ids.candidates ∧ v.constituency ∈ ids.constituencies ∧ v.gender ∈ ids.sexes ∧
      v.education ∈ ids.educations) ∧
    ∃ draw ∈ draws, v.pesel = getPesel draw.monthDate draw.dayDate draw.year draw.tail := by
  induction draws generalizing votes with
  | nil =>
    obtain rfl := Option.some.inj h
    cases hv
  | cons draw draws ih =>
    rw [getRandomData, List.mapM_cons] at h
    obtain ⟨first, hfirst, h⟩ := Option.bind_eq_some_iff.mp h
    obtain ⟨rest, hrest, h⟩ := Option.bind_eq_some_iff.mp h
    obtain rfl := Option.some.inj h
    rcases List.mem_cons.mp hv with rfl | hv
    · simp only [voteEntity, Option.bind_eq_bind, Option.bind_eq_some_iff] at hfirst
      obtain ⟨vote, hvote, constituency, hconstituency, gender, hgender, education, heducation,
        hentity⟩ := hfirst
      obtain rfl := Option.some.inj hentity
      exact ⟨⟨mem_of_pick hvote, mem_of_pick hconstituency, mem_of_pick hgender,
        mem_of_pick heducation⟩, draw, List.mem_cons_self .., rfl⟩
    · obtain ⟨hids, draw', hdraw', hpesel⟩ := ih hrest hv
      exact ⟨hids, draw', List.mem_cons_of_mem _ hdraw', hpesel⟩

/-! ### What is read back -/

/-- The vote as the aggregator keeps it. -/
def VoteEntity.info (v : VoteEntity) (rowId : String) : VoteInfo where
  pesel := some v.pesel
  vote := v.vote
  votingArea := v.constituency
  gender := v.gender
  education := v.education
  rowId := some rowId

/-- **Round trip.**  A posted vote is read with all its fields. -/
theorem readVote_withIds (txId rowId : String) (v : VoteEntity) :
    readVote (TwoPhase.MainServlet.withIds txId rowId v.json) =
      .ok (some rowId, v.info rowId) := rfl

/-- All characters of a generated Pesel are digits, and they are 11 at least. -/
theorem isDigit_getPesel (draw : Draw) :
    let pesel := getPesel draw.monthDate draw.dayDate draw.year draw.tail
    11 ≤ pesel.length ∧ ∀ c ∈ pesel.toList, c.isDigit = true := by
  intro pesel
  have hmonth := isDigit_digits (date_range draw.monthDate).1
  have hday := isDigit_digits (date_range draw.dayDate).2
  have hyear : ∀ c ∈ DateFormat.digits draw.year, c.isDigit = true := by
    have hrange := draw.year_range
    exact isDigit_digits (by omega)
  have htail := toList_tail draw.tail_range
  rw [← String.length_toList]
  by_cases htwo : 10 ≤ draw.dayDate.day
  · rw [show pesel.toList = _ from toList_getPesel _ _ _ draw.year_range htwo]
    constructor
    · simp only [List.length_append, length_digits, htail.1]
      omega
    · simp only [List.forall_mem_append]
      exact ⟨⟨⟨hyear, hmonth⟩, hday⟩, htail.2⟩
  · rw [show pesel.toList = _ from toList_getPesel_of_lt _ _ _ draw.year_range (by omega)]
    constructor
    · simp only [List.length_append, List.length_cons, length_digits, htail.1]
      omega
    · simp only [List.forall_mem_append, List.forall_mem_cons]
      exact ⟨⟨⟨hyear, hmonth⟩, rfl, hmonth⟩, htail.2⟩

/-! ### What is counted -/

/-- The ids of the generator's tables exist in the results database. -/
structure DictionaryIds.Known (ids : DictionaryIds) (db : DictTables) : Prop where
  candidates : ∀ c ∈ ids.candidates, (db.dCandidates.lookup c).isSome = true
  constituencies : ∀ c ∈ ids.constituencies, c ∈ db.dConstituencies
  sexes : ∀ s ∈ ids.sexes, s ∈ db.dSex
  educations : ∀ e ∈ ids.educations, e ∈ db.dEducation

/-- An age within the groups is given one that exists. -/
theorem isSome_getAgeIdBasedOnAge {d : Dictionary} {age : Int32}
    (h : ∃ ageId, d.InGroup age ageId) :
    (d.ageGroupMap.lookup (d.getAgeIdBasedOnAge age)).isSome = true := by
  unfold Dictionary.getAgeIdBasedOnAge
  cases hfind : d.ageGroupMap.entries.find? fun e => e.2.1 ≤ age ∧ age ≤ e.2.2 with
  | some e =>
    have hmem := List.mem_of_find?_eq_some hfind
    exact Option.isSome_of_eq_some (AList.mem_lookup_iff.mpr hmem)
  | none =>
    obtain ⟨ageId, bounds, hlook, hbounds⟩ := h
    have hnot := List.find?_eq_none.mp hfind _ (AList.mem_lookup_iff.mp hlook)
    exact absurd (decide_eq_true hbounds) hnot

/-- **A generated vote is counted in all six tables**, whatever is drawn for it, whenever it
    is counted: if the results database has the ids of the generator's tables and age groups
    from 18 to 117, then all rows that count it are accepted exactly if its candidate has a
    party or there is a party 0, which stands for a candidate without one. -/
theorem generated_vote_is_counted {ids : DictionaryIds} {db : DictTables} {d : Dictionary}
    (hknown : ids.Known db) (hload : d.Loaded db) (hcover : d.GroupsCover 18 117)
    {draws : List Draw} {votes : List VoteEntity} (h : getRandomData ids draws = some votes)
    {v : VoteEntity} (hv : v ∈ votes) (txId rowId : String) (now : Int64)
    (other : String → Option Int64) :
    readVote (TwoPhase.MainServlet.withIds txId rowId v.json) = .ok (some rowId, v.info rowId) ∧
      ((∀ k, (v.info rowId).inClass d (.reading now other) k = true → db.references k = true) ↔
        (∃ p, db.dCandidates.lookup v.vote = some (some p)) ∨ 0 ∈ db.dParties) := by
  obtain ⟨⟨hvote, hconstituency, hgender, heducation⟩, draw, -, hpesel⟩ :=
    mem_of_getRandomData h hv
  refine ⟨readVote_withIds txId rowId v, ?_⟩
  obtain ⟨party, hparty⟩ := Option.isSome_iff_exists.mp (hknown.candidates _ hvote)
  -- the party that the vote counts for
  have hpartyId : d.partyId (v.info rowId) = party.getD 0 := by
    rw [Dictionary.partyId_eq, Dictionary.partyOf]
    show (d.dictCandidatesMap.lookup v.vote).getD 1 = _
    rw [hload.1, hparty]
    rfl
  have hexists : party.getD 0 ∈ db.dParties ↔
      (∃ p, db.dCandidates.lookup v.vote = some (some p)) ∨ 0 ∈ db.dParties := by
    rw [hparty]
    cases party with
    | none   => simp
    | some p => simp [db.fkPartyId _ _ hparty]
  rw [← hexists, ← hpartyId]
  constructor
  · intro hall
    exact of_decide_eq_true (hall (.percent (d.partyId (v.info rowId))) (decide_eq_true rfl))
  · intro hmem k hk
    cases k with
    | candidate c =>
      obtain rfl := of_decide_eq_true hk
      exact hknown.candidates _ hvote
    | percent p =>
      obtain rfl := of_decide_eq_true hk
      exact decide_eq_true hmem
    | age p a =>
      obtain ⟨rfl, rfl⟩ := Prod.mk.inj (of_decide_eq_true hk)
      -- the Pesel has digits, so the age is in one of the groups
      obtain ⟨hlen, hdigits⟩ := isDigit_getPesel draw
      rw [← hpesel] at hlen hdigits
      have hlen' : 6 ≤ v.pesel.length := by omega
      have hage := calcAgeFromPesel_range now other hlen'
        fun c hc => hdigits c (List.mem_of_mem_take hc)
      have hgroup := isSome_getAgeIdBasedOnAge
        (hcover _ (Int32.le_iff_toInt_le.mpr hage.1) (Int32.le_iff_toInt_le.mpr hage.2))
      rw [hload.2] at hgroup
      exact decide_eq_true ⟨hmem, hgroup⟩
    | education p e =>
      obtain ⟨rfl, rfl⟩ := Prod.mk.inj (of_decide_eq_true hk)
      exact decide_eq_true ⟨hmem, hknown.educations _ heducation⟩
    | sex p s =>
      obtain ⟨rfl, rfl⟩ := Prod.mk.inj (of_decide_eq_true hk)
      exact decide_eq_true ⟨hmem, hknown.sexes _ hgender⟩
    | constituency p c =>
      obtain ⟨rfl, rfl⟩ := Prod.mk.inj (of_decide_eq_true hk)
      exact decide_eq_true ⟨hmem, hknown.constituencies _ hconstituency⟩

namespace Sample

/-- The candidates of one party. -/
def candidates : Table Int32 (Option Int32) := AList.insert 1 (some 1) ∅

theorem party_of_candidates {c p : Int32} (h : candidates.lookup c = some (some p)) :
    p ∈ [1] := by
  unfold candidates at h
  rw [Table.lookup_insert_eq] at h
  split at h
  · obtain rfl := Option.some.inj (Option.some.inj h)
    exact List.mem_singleton_self 1
  · simp at h

/-- A results database with the age groups of the schema. -/
def tables : DictTables where
  dParties := [1]
  dCandidates := candidates
  dAge := Aggregator.Sample.ages.ageGroupMap
  dConstituencies := [1]
  dEducation := [1]
  dSex := [1]
  fkPartyId _ _ := party_of_candidates

/-- The ids of its rows. -/
def ids : DictionaryIds where
  candidates := [1]
  constituencies := [1]
  sexes := [1]
  educations := [1]

/-- A draw whose Pesel has twelve digits. -/
def draw : Draw where
  monthDate := february
  dayDate := second
  year := 90
  tail := 46970
  vote := 5
  constituency := 7
  gender := 0
  education := 3
  year_range := by decide
  tail_range := by decide

/-- The vote of the draw. -/
def voteEntity : VoteEntity := ⟨"900200246970", 1, 1, 1, 1⟩

theorem groupsCover_tables : tables.dictionary.GroupsCover 18 117 := by
  intro age hlo hhi
  obtain ⟨ageId, hgroup⟩ := Aggregator.Sample.groupsCover_ages age hlo hhi
  exact ⟨ageId, (Dictionary.inGroup_congr tables.dictionary_loaded.2 age ageId).mpr hgroup⟩

end Sample

/-- A vote with a Pesel of twelve digits is counted as well. -/
theorem generated_vote_is_counted_sample :
    readVote (TwoPhase.MainServlet.withIds "t" "r" Sample.voteEntity.json) =
        .ok (some "r", Sample.voteEntity.info "r") ∧
      ∀ k, (Sample.voteEntity.info "r").inClass Sample.tables.dictionary
          (.reading 0 fun _ => none) k = true → Sample.tables.references k = true := by
  have hdata : getRandomData Sample.ids [Sample.draw] = some [Sample.voteEntity] := rfl
  have hknown : Sample.ids.Known Sample.tables :=
    { candidates := List.forall_mem_singleton.mpr rfl
      constituencies := List.forall_mem_singleton.mpr (List.mem_singleton_self 1)
      sexes := List.forall_mem_singleton.mpr (List.mem_singleton_self 1)
      educations := List.forall_mem_singleton.mpr (List.mem_singleton_self 1) }
  obtain ⟨hread, hiff⟩ := generated_vote_is_counted hknown Sample.tables.dictionary_loaded
    Sample.groupsCover_tables hdata (List.mem_singleton_self _) "t" "r" 0 fun _ => none
  exact ⟨hread, hiff.mpr (.inl ⟨1, rfl⟩)⟩

end RsoVoting.DataGenerator
