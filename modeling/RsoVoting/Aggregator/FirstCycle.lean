import RsoVoting.Aggregator.RsoAggregator

namespace RsoVoting.Aggregator

open RsoVoting

/-!
# The first cycle over tables that have been published before

A new aggregator counts from nothing, but the tables it writes to are those that earlier
processes left.  It upserts the rows of the classes that have a vote, and no statement of it
deletes a row or sets it to 0.

* `Behaviour.Faultless` — no statement fails on an instance, which may also be down;
* `init_new` — the first cycle of a new aggregator, whatever the tables hold;
* `first_cycle_overrides` — the rows of the classes with a vote are replaced, all others are
  kept, and so the instances end with the same results exactly if these others are the same;
* `first_cycle_keeps_stale_rows` — a row of votes that have been removed since is kept.
-/

/-- No statement fails on the instance. -/
def Behaviour.Faultless (behaviour : Behaviour) : Prop :=
  behaviour.selectCandidates = .none ∧ behaviour.selectAge = .none ∧
    ∀ k, behaviour.upsert k = .none

/-- The instances that are up. -/
def reachable (databases : List (Database × Behaviour)) : List (Database × Behaviour) :=
  databases.filter fun p => p.2.reachable

/-- The dictionary queries skip the instances that are down, and load from the first one
    that is up. -/
private theorem getDictData_connectAll {V : Type} [DecidableEq V]
    (query : Database → List (Int32 × V)) (fault : Behaviour → QueryFault)
    {databases : List (Database × Behaviour)} (hok : ∀ p ∈ databases, fault p.2 = .none)
    (map : Table Int32 V) :
    (getDictData query fault (connectAll databases) map).1 =
        (reachable databases).head?.elim map (fun p => Table.insertAll map (query p.1)) ∧
      (getDictData query fault (connectAll databases) map).2.1 = connectAll databases := by
  induction databases with
  | nil => exact ⟨rfl, rfl⟩
  | cons p databases ih =>
    obtain ⟨hmap, hrest⟩ := ih fun q hq => hok q (List.mem_cons_of_mem _ hq)
    have hfault : fault (PostgresInstance.connect p.1 p.2).behaviour = .none :=
      hok p (List.mem_cons_self ..)
    have hactive : (PostgresInstance.connect p.1 p.2).isActive = p.2.reachable := by
      simp [PostgresInstance.isActive, PostgresInstance.connect]
    have hconn : connectAll (p :: databases) =
        PostgresInstance.connect p.1 p.2 :: connectAll databases := rfl
    rw [hconn, getDictData, hactive]
    cases hreach : p.2.reachable with
    | true =>
      simp only [if_true, hfault]
      simp [reachable, hreach, PostgresInstance.connect, Connection.idle]
    | false =>
      simp only [Bool.false_eq_true, if_false]
      refine ⟨?_, by rw [hrest]⟩
      rw [hmap]
      simp [reachable, hreach]

/-- Loading into new statistics. -/
theorem getDictionaries_new {databases : List (Database × Behaviour)}
    (hok : ∀ p ∈ databases, p.2.Faultless) :
    getDictionaries (connectAll databases) {} =
      ({ toDictionary := firstDictionary ((reachable databases).map fun p => p.1.toDictTables) },
        connectAll databases) := by
  obtain ⟨hcand, hrest⟩ := getDictData_connectAll (fun db => db.selectCandidates)
    Behaviour.selectCandidates (fun p hp => (hok p hp).1) ∅
  obtain ⟨hage, hrest'⟩ := getDictData_connectAll (fun db => db.selectAge)
    Behaviour.selectAge (fun p hp => (hok p hp).2.1) ∅
  unfold getDictionaries
  simp only [hcand, hrest, hage, hrest']
  cases hfirst : (reachable databases).head? with
  | none =>
    obtain hnil := List.head?_eq_none_iff.mp hfirst
    simp [hnil, firstDictionary]
  | some p =>
    obtain ⟨rest, hcons⟩ := List.head?_eq_some_iff.mp hfirst
    simp [hcons, firstDictionary, DictTables.dictionary]

/-! ### What a new aggregator writes -/

namespace RsoAggregator

/-- The tables that a pass finds, each with the behaviour of its instance. -/
def found (databases : List Database) (pass : Pass) : List (Database × Behaviour) :=
  databases.mapIdx fun i db => (db, pass.postgres i)

/-- The dictionary that a new aggregator loads. -/
def loaded (databases : List Database) (pass : Pass) : Dictionary :=
  firstDictionary ((reachable (found databases pass)).map fun p => p.1.toDictTables)

/-- The number of counted votes of a class in the first pass of a new aggregator. -/
def firstCount (databases : List Database) (pass : Pass) (k : ResultKey) : ℕ :=
  (collected pass.mongo).classCount (loaded databases pass) pass.clock k

end RsoAggregator

open RsoAggregator

/-- The first cycle of a new aggregator, if no statement fails. -/
theorem init_new (databases : List Database) (pass : Pass)
    (hok : ∀ i, (pass.postgres i).Faultless) :
    (RsoAggregator.init { databases } pass).databases =
      databases.mapIdx fun i db => (pass.postgres i).store
        (Statistics.calculateAll pass.clock (collected pass.mongo)
          { toDictionary := loaded databases pass }).rows db := by
  have hfound : ∀ p ∈ found databases pass, p.2.Faultless := by
    intro p hp
    obtain ⟨i, hi, rfl⟩ := List.mem_mapIdx.mp hp
    exact hok i
  have hload := getDictionaries_new hfound
  unfold RsoAggregator.init
  simp only [show (databases.mapIdx fun i db => (db, pass.postgres i)) = found databases pass
    from rfl, hload, stats_getAllData, insertStats_connectAll]
  refine (List.mapIdx_eq_iff.mpr fun i => ?_).symm
  simp only [connectAll, List.getElem?_map, found, List.getElem?_mapIdx, Option.map_map]
  rfl

/-- A row of an instance that is up, after the first cycle. -/
theorem lookup_init_new {databases : List Database} {pass : Pass}
    (hok : ∀ i, (pass.postgres i).Faultless) {i : ℕ} {db db' : Database}
    (hdb : databases[i]? = some db)
    (hdb' : (RsoAggregator.init { databases } pass).databases[i]? = some db')
    (hup : (pass.postgres i).reachable = true) (k : ResultKey) :
    db'.lookup k = if db.references k = true ∧ 0 < firstCount databases pass k then
      some (Int32.ofNat (firstCount databases pass k)) else db.lookup k := by
  rw [init_new databases pass hok, List.getElem?_mapIdx, hdb, Option.map_some] at hdb'
  obtain rfl := Option.some.inj hdb'
  have hacc : (pass.postgres i).accepts db.toDictTables k = db.references k := by
    simp [Behaviour.accepts, hup, (hok i).2.2 k]
  -- the entry starts from nothing, so it is the count of the class if there is one
  have hentry : (Statistics.calculateAll pass.clock (collected pass.mongo)
      { toDictionary := loaded databases pass }).lookup k =
      counted (firstCount databases pass k) none := by
    rw [Statistics.lookup_calculateAll, Statistics.lookup_new]
    rfl
  rw [Behaviour.lookup_store, hacc, hentry]
  cases firstCount databases pass k with
  | zero   => simp
  | succ n => simp [counted_succ_none]

/-! ### Published again -/

/-- The tables have the count of every class with a vote, and no positive one for any other. -/
def Database.Shows (db : Database) (count : ResultKey → ℕ) : Prop :=
  ∀ k, (0 < count k → db.lookup k = some (Int32.ofNat (count k))) ∧
    (count k = 0 → ∀ v, db.lookup k = some v → v ≤ 0)

/-- The instances that are up have the same rows for these classes. -/
def SameResults (databases : List Database) (pass : Pass) (ks : ResultKey → Prop) : Prop :=
  ∀ i j db db', databases[i]? = some db → databases[j]? = some db' →
    (pass.postgres i).reachable = true → (pass.postgres j).reachable = true →
    ∀ k, ks k → db.lookup k = db'.lookup k

/-- **A cycle overrides what was published.**  After the first cycle of a new aggregator in
    which no statement fails, with all ids of the votes in the dictionaries, an instance that
    is up has the count of every class with a vote, and every other row as it was before.  So
    it shows exactly the votes if there was no positive count for a class without votes
    before, and the instances that are up end with the same results exactly if they had the
    same rows for the classes without votes. -/
theorem first_cycle_overrides (databases : List Database) (pass : Pass)
    (hok : ∀ i, (pass.postgres i).Faultless)
    (hids : ∀ i db, databases[i]? = some db → (pass.postgres i).reachable = true →
      ∀ rowId vi, (collected pass.mongo).lookup rowId = some vi →
        ∀ k, vi.inClass (loaded databases pass) (pass.clock rowId) k = true →
          db.references k = true) :
    let published := (RsoAggregator.init { databases } pass).databases
    let count := firstCount databases pass
    (∀ i db db', databases[i]? = some db → published[i]? = some db' →
      (pass.postgres i).reachable = true → ∀ k,
        (0 < count k → db'.lookup k = some (Int32.ofNat (count k))) ∧
        (count k = 0 → db'.lookup k = db.lookup k)) ∧
    (∀ i db db', databases[i]? = some db → published[i]? = some db' →
      (pass.postgres i).reachable = true →
        (db'.Shows count ↔ ∀ k, count k = 0 → ∀ v, db.lookup k = some v → v ≤ 0)) ∧
    (SameResults published pass (fun _ => True) ↔
      SameResults databases pass fun k => count k = 0) := by
  intro published count
  -- a class with a vote has its ids in the dictionaries
  have href : ∀ i db, databases[i]? = some db → (pass.postgres i).reachable = true →
      ∀ k, 0 < count k → db.references k = true := by
    intro i db hdb hup k hk
    obtain ⟨e, he, hclass⟩ := List.countP_pos_iff.mp hk
    exact hids i db hdb hup e.1 e.2 (AList.mem_lookup_iff.mpr he) k hclass
  have hrows : ∀ i db db', databases[i]? = some db → published[i]? = some db' →
      (pass.postgres i).reachable = true → ∀ k,
        (0 < count k → db'.lookup k = some (Int32.ofNat (count k))) ∧
        (count k = 0 → db'.lookup k = db.lookup k) := by
    intro i db db' hdb hdb' hup k
    rw [lookup_init_new hok hdb hdb' hup]
    refine ⟨fun hk => if_pos ⟨href i db hdb hup k hk, hk⟩, fun hk => if_neg fun h => ?_⟩
    have hpos : 0 < count k := h.2
    omega
  -- the cycle keeps the instances
  have hlen : published.length = databases.length := by
    simp [published, init_new databases pass hok]
  have hsome : ∀ (l l' : List Database), l.length = l'.length → ∀ (i : ℕ) db,
      l[i]? = some db → ∃ db', l'[i]? = some db' := by
    intro l l' hl i db hdb
    obtain ⟨hi, -⟩ := List.getElem?_eq_some_iff.mp hdb
    exact ⟨_, List.getElem?_eq_getElem (hl ▸ hi)⟩
  have hshows : ∀ i db db', databases[i]? = some db → published[i]? = some db' →
      (pass.postgres i).reachable = true →
        (db'.Shows count ↔ ∀ k, count k = 0 → ∀ v, db.lookup k = some v → v ≤ 0) := by
    intro i db db' hdb hdb' hup
    refine forall_congr' fun k => ?_
    obtain ⟨hnew, hold⟩ := hrows i db db' hdb hdb' hup k
    rw [and_iff_right hnew]
    exact forall_congr' fun hk => by rw [hold hk]
  refine ⟨hrows, hshows, fun h i j db₁ db₂ h₁ h₂ hup₁ hup₂ k hk => ?_,
    fun h i j db₁' db₂' h₁' h₂' hup₁ hup₂ k _ => ?_⟩
  · obtain ⟨db₁', h₁'⟩ := hsome databases published hlen.symm i db₁ h₁
    obtain ⟨db₂', h₂'⟩ := hsome databases published hlen.symm j db₂ h₂
    rw [← (hrows i db₁ db₁' h₁ h₁' hup₁ k).2 hk, ← (hrows j db₂ db₂' h₂ h₂' hup₂ k).2 hk]
    exact h i j db₁' db₂' h₁' h₂' hup₁ hup₂ k trivial
  · obtain ⟨db₁, h₁⟩ := hsome published databases hlen i db₁' h₁'
    obtain ⟨db₂, h₂⟩ := hsome published databases hlen j db₂' h₂'
    obtain ⟨hnew₁, hold₁⟩ := hrows i db₁ db₁' h₁ h₁' hup₁ k
    obtain ⟨hnew₂, hold₂⟩ := hrows j db₂ db₂' h₂ h₂' hup₂ k
    rcases Nat.eq_zero_or_pos (count k) with hk | hk
    · rw [hold₁ hk, hold₂ hk]
      exact h i j db₁ db₂ h₁ h₂ hup₁ hup₂ k hk
    · rw [hnew₁ hk, hnew₂ hk]

namespace Sample

/-- The database after one vote for candidate 1 has been published. -/
def published : Database :=
  ({} : Behaviour).store (Statistics.calculateAll clock (votes 2)
    { toDictionary := database.dictionary }).rows database

/-- A pass that finds these documents on the only Mongo instance. -/
def pass (documents : List Document) : Pass where
  mongo := [{ documents }]
  postgres := fun _ => {}
  clock := clock

end Sample

/-- The vote that was published has been rolled back since.  A cycle over the empty store
    leaves its rows where they are, next to an instance that never had them. -/
theorem first_cycle_keeps_stale_rows :
    let databases := [Sample.published, Sample.database]
    let published := (RsoAggregator.init { databases } (Sample.pass [])).databases
    (¬∀ db ∈ published, db.Shows (firstCount databases (Sample.pass []))) ∧
      ¬SameResults published (Sample.pass []) fun _ => True := by
  intro databases published
  refine ⟨fun h => ?_, fun h => ?_⟩
  · exact absurd ((h published[0] (List.getElem_mem _) (.candidate 1)).2 rfl 1 (by decide))
      (by decide)
  · exact absurd (h 0 1 _ _ rfl rfl rfl rfl (.candidate 1) trivial) (by decide)

/-- The vote is still there, and is published on the second instance while the first one is
    down. -/
theorem first_cycle_overrides_sample :
    ((RsoAggregator.init { databases := [Sample.published, Sample.database] }
      { Sample.pass [Sample.vote "a" 1 1] with
        postgres := fun i => { reachable := i = 1 } }).databases[1]?.bind
          fun db => db.lookup (.candidate 1)) = some (Int32.ofNat 1) := by
  let pass : Pass := { Sample.pass [Sample.vote "a" 1 1] with
    postgres := fun i => { reachable := i = 1 } }
  have hids : ∀ (i : ℕ) db, [Sample.published, Sample.database][i]? = some db →
      (pass.postgres i).reachable = true → ∀ rowId vi,
      (collected pass.mongo).lookup rowId = some vi → ∀ k,
      vi.inClass (loaded [Sample.published, Sample.database] pass) (pass.clock rowId) k = true →
        db.references k = true := by
    intro i db hdb hup rowId vi hvi k hk
    obtain rfl : i = 1 := of_decide_eq_true hup
    obtain rfl : Sample.database = db := Option.some.inj hdb
    -- the one vote is in one class of each table
    have hmem : (⟨rowId, vi⟩ : Sigma fun _ : Option String => VoteInfo) ∈
        [⟨some "a", ⟨some "90010112345", 1, 1, 1, 2, some "a"⟩⟩] := AList.mem_lookup_iff.mp hvi
    obtain ⟨rfl, rfl⟩ := by simpa using hmem
    cases k <;> simp only [VoteInfo.inClass, decide_eq_true_eq, Prod.mk.injEq] at hk
    case candidate | percent => subst hk; decide
    all_goals
      obtain ⟨rfl, rfl⟩ := hk
      decide
  obtain ⟨db', hdb'⟩ : ∃ db', (RsoAggregator.init
      { databases := [Sample.published, Sample.database] } pass).databases[1]? = some db' :=
    ⟨_, rfl⟩
  have hrow := ((first_cycle_overrides [Sample.published, Sample.database] pass
    (fun i => ⟨rfl, rfl, fun _ => rfl⟩) hids).1 1 Sample.database db' rfl hdb' rfl
      (.candidate 1)).1 (by decide)
  rw [hdb']
  exact hrow

end RsoVoting.Aggregator
