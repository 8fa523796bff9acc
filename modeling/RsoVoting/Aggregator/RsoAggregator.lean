import RsoVoting.Aggregator.Replicas
import RsoVoting.Aggregator.PostgresHandler

namespace RsoVoting.Aggregator

open RsoVoting

/-!
# The master loop

Every pass through `init()` makes new handlers, loads the dictionaries, reads all votes,
counts them and writes the counts.  The statistics are made once, before the loop, and no
pass clears them, so the counts of all passes add up.

* `RsoAggregator.init` / `loop` — one pass and the loop;
* `Cycle` — a pass in which nothing fails, over a vote store with given contents;
* `lookup_loop` — after any number of cycles every entry has the sum of their counts;
* `publishes_iff` — so the counts of the last cycle are published exactly if the earlier
  ones contribute nothing, up to the range of a Java `int`;
* `publishes_of_clear` — clearing the statistics first would be enough.
-/

/-- What a pass finds outside: the Mongo instances, how the Postgres instances behave, by
    their position in `POSTGRES_HOSTS`, and the clock. -/
structure Pass where
  mongo : List MongoInstance
  postgres : ℕ → Behaviour
  clock : Option String → Clock

/-- The aggregator, with the tables of the databases it writes to. -/
structure RsoAggregator where
  databases : List Database
  stats : Statistics := {}

namespace RsoAggregator

/-- `init()`, once the handlers are connected: `prepareDB` and `process`. -/
def init (agg : RsoAggregator) (pass : Pass) : RsoAggregator :=
  let postDB := connectAll (agg.databases.mapIdx fun i db => (db, pass.postgres i))
  let (stats, postDB) := getDictionaries postDB agg.stats
  let (_, stats) := MongoHandler.getAllData pass.clock { mapMongoInstances := pass.mongo } stats
  let postDB := insertStats stats postDB
  -- closing a connection forgets a transaction that is still open
  { stats, databases := postDB.map fun pi => pi.conn.committed }

/-- The loop of the constructor, for as many passes. -/
def loop (agg : RsoAggregator) (passes : List Pass) : RsoAggregator := passes.foldl init agg

/-- The dictionaries as the databases have them. -/
def dictionary (agg : RsoAggregator) : Dictionary :=
  firstDictionary (agg.databases.map Database.toDictTables)

end RsoAggregator

/-! ### Cycles without failures -/

/-- A pass with all instances reachable, over a store whose votes are `content`: they are
    well formed, have a row id, and may be replicated in any way. -/
structure Cycle extends Pass where
  content : VoteMap
  mongo_connected : ∀ mi ∈ mongo, mi.Connected
  postgres_ok : ∀ i, postgres i = {}
  wellFormed : WellFormed mongo
  stored_iff : ∀ rowId vi, content.lookup rowId = some vi ↔ ∃ mi ∈ mongo, mi.Stores rowId vi
  hasRowId : content.lookup none = none

namespace Cycle

/-- The number of distinct row ids of the store in a class. -/
def count (c : Cycle) (d : Dictionary) (k : ResultKey) : ℕ := c.content.classCount d c.clock k

/-- The number of votes of a class that cycles read, one after the other. -/
def total (d : Dictionary) (k : ResultKey) (cycles : List Cycle) : ℕ :=
  (cycles.map fun c => c.count d k).sum

theorem lookup_collected (c : Cycle) (rowId : Option String) :
    (collected c.mongo).lookup rowId = c.content.lookup rowId := by
  have hcons : Consistent c.mongo := fun mi hmi mi' hmi' rowId vi vi' hst hst' =>
    Option.some.inj (((c.stored_iff rowId vi).mpr ⟨mi, hmi, hst⟩).symm.trans
      ((c.stored_iff rowId vi').mpr ⟨mi', hmi', hst'⟩))
  refine Option.ext fun vi => ?_
  rw [Aggregator.lookup_collected c.wellFormed hcons, c.stored_iff]
  exact exists_congr fun mi => and_congr_right fun hmi =>
    and_iff_right (c.mongo_connected mi hmi)

end Cycle

/-! ### What the passes add up to -/

section

variable {agg : RsoAggregator} {d : Dictionary}

/-- A cycle counts the votes of its store on top of the statistics, and every database gets
    the rows it accepts. -/
theorem init_cycle (hd : d = agg.dictionary)
    (hstats : agg.stats.toDictionary = {} ∨ agg.stats.toDictionary = d) (c : Cycle) :
    let stats := Statistics.calculateAll c.clock (collected c.mongo)
      { agg.stats with toDictionary := d }
    agg.init c.toPass =
      { databases := agg.databases.map fun db => ({} : Behaviour).store stats.rows db, stats } := by
  intro stats
  have hconnect : (agg.databases.mapIdx fun i db => (db, c.postgres i)) =
      agg.databases.map fun db => (db, ({} : Behaviour)) := by
    simp only [c.postgres_ok]
    exact List.ext_getElem (by simp) fun i h₁ h₂ => by simp
  have hload : getDictionaries
      (connectAll (agg.databases.map fun db => (db, ({} : Behaviour)))) agg.stats =
      ({ agg.stats with toDictionary := d },
        connectAll (agg.databases.map fun db => (db, ({} : Behaviour)))) :=
    getDictionaries_of_no_fault (by simp)
      (by simpa [RsoAggregator.dictionary, Function.comp_def] using hd) hstats
  unfold RsoAggregator.init
  simp only [hconnect, hload, stats_getAllData, insertStats_connectAll]
  simp [connectAll, PostgresInstance.connect, stats, Function.comp_def]

/-- The dictionary tables are not written. -/
theorem dictionary_init (hd : d = agg.dictionary)
    (hstats : agg.stats.toDictionary = {} ∨ agg.stats.toDictionary = d) (c : Cycle) :
    (agg.init c.toPass).dictionary = agg.dictionary := by
  rw [init_cycle hd hstats]
  simp [RsoAggregator.dictionary, Function.comp_def, Behaviour.store_toDictTables]

theorem stats_init_toDictionary (hd : d = agg.dictionary)
    (hstats : agg.stats.toDictionary = {} ∨ agg.stats.toDictionary = d) (c : Cycle) :
    (agg.init c.toPass).stats.toDictionary = d := by
  rw [init_cycle hd hstats, Statistics.calculateAll_toDictionary]

/-- A cycle adds the counts of its store to every entry. -/
theorem lookup_init (hd : d = agg.dictionary)
    (hstats : agg.stats.toDictionary = {} ∨ agg.stats.toDictionary = d) (c : Cycle)
    (k : ResultKey) :
    (agg.init c.toPass).stats.lookup k = counted (c.count d k) (agg.stats.lookup k) := by
  rw [init_cycle hd hstats, Statistics.lookup_calculateAll,
    VoteMap.classCount_congr c.lookup_collected]
  rfl

/-- **Cycles add up.**  After any number of cycles every entry has been incremented once for
    each vote of its class in each of them. -/
theorem lookup_loop (hd : d = agg.dictionary)
    (hstats : agg.stats.toDictionary = {} ∨ agg.stats.toDictionary = d) (cycles : List Cycle) :
    let agg' := agg.loop (cycles.map Cycle.toPass)
    (∀ k, agg'.stats.lookup k = counted (Cycle.total d k cycles) (agg.stats.lookup k)) ∧
      agg'.dictionary = d ∧ (agg'.stats.toDictionary = {} ∨ agg'.stats.toDictionary = d) := by
  induction cycles generalizing agg with
  | nil => exact ⟨fun k => rfl, hd.symm, hstats⟩
  | cons c cycles ih =>
    -- one cycle leaves the loop where the hypotheses hold again
    have hdict := dictionary_init hd hstats c
    obtain ⟨hlook, hrest⟩ :=
      ih (hd.trans hdict.symm) (.inr (stats_init_toDictionary hd hstats c))
    refine ⟨fun k => ?_, hrest⟩
    have htotal : Cycle.total d k (c :: cycles) = Cycle.total d k cycles + c.count d k :=
      Nat.add_comm _ _
    rw [htotal, counted_add, ← lookup_init hd hstats]
    exact hlook k

end

/-! ### What is published -/

/-- Every entry of the statistics is the count of its class, and so is every row that the
    databases have accepted for an entry. -/
def RsoAggregator.Publishes (agg : RsoAggregator) (count : ResultKey → ℕ) : Prop :=
  (∀ k v, agg.stats.lookup k = some v → v.toInt = count k) ∧
  ∀ db ∈ agg.databases, ∀ k, (agg.stats.lookup k).isSome = true → db.references k = true →
    ∃ v, db.lookup k = some v ∧ v.toInt = count k

/-- A counter shows the last `l` of `e + l` votes exactly if the others are a multiple of
    `2^32`, and the last ones are within the range of an `int`. -/
theorem toInt_ofNat_add_eq_iff (e l : ℕ) :
    (Int32.ofNat (e + l)).toInt = l ↔ 2 ^ 32 ∣ e ∧ l < 2 ^ 31 := by
  rw [Int32.toInt_ofNat', Int.bmod_def, Int32.size]
  omega

/-- After a cycle the databases have the rows of the statistics that they accept. -/
theorem lookup_init_databases {agg : RsoAggregator} {d : Dictionary} (hd : d = agg.dictionary)
    (hstats : agg.stats.toDictionary = {} ∨ agg.stats.toDictionary = d) (c : Cycle)
    {db : Database} (hdb : db ∈ (agg.init c.toPass).databases) {k : ResultKey} {v : Int32}
    (hk : (agg.init c.toPass).stats.lookup k = some v) (href : db.references k = true) :
    db.lookup k = some v := by
  rw [init_cycle hd hstats] at hdb hk
  obtain ⟨db', -, rfl⟩ := List.mem_map.mp hdb
  rw [Behaviour.store_toDictTables] at href
  rw [Behaviour.lookup_store, if_pos (by simp [Behaviour.accepts, href]), hk]
  rfl

/-- One cycle on statistics that show earlier counts publishes its own counts exactly if, for
    every class that ever had a vote, the earlier ones are a multiple of `2^32` and its own
    are below `2^31`. -/
theorem publishes_init_iff {agg : RsoAggregator} {d : Dictionary} (hd : d = agg.dictionary)
    (hstats : agg.stats.toDictionary = {} ∨ agg.stats.toDictionary = d)
    {earlier : ResultKey → ℕ} (hearlier : ∀ k, agg.stats.lookup k = counted (earlier k) none)
    (c : Cycle) :
    (agg.init c.toPass).Publishes (c.count d) ↔
      ∀ k, 0 < earlier k + c.count d k → 2 ^ 32 ∣ earlier k ∧ c.count d k < 2 ^ 31 := by
  -- an entry is there for every class with a vote, and shows the total of all cycles
  have hentry : ∀ k v, (agg.init c.toPass).stats.lookup k = some v ↔
      0 < earlier k + c.count d k ∧ v = Int32.ofNat (earlier k + c.count d k) := by
    intro k v
    rw [lookup_init hd hstats, hearlier, ← counted_add, Nat.add_comm]
    cases earlier k + c.count d k with
    | zero   => simp
    | succ n => simp [counted_succ_none, eq_comm]
  constructor
  · rintro ⟨hmaps, -⟩ k hpos
    exact (toInt_ofNat_add_eq_iff _ _).mp (hmaps k _ ((hentry k _).mpr ⟨hpos, rfl⟩))
  · intro hcond
    have hmaps : ∀ k v, (agg.init c.toPass).stats.lookup k = some v →
        v.toInt = c.count d k := by
      intro k v hk
      obtain ⟨hpos, rfl⟩ := (hentry k v).mp hk
      exact (toInt_ofNat_add_eq_iff _ _).mpr (hcond k hpos)
    -- the rows are those of the entries
    refine ⟨hmaps, fun db hdb k hsome href => ?_⟩
    obtain ⟨v, hv⟩ := Option.isSome_iff_exists.mp hsome
    exact ⟨v, lookup_init_databases hd hstats c hdb hv href, hmaps k v hv⟩

/-- **What a cycle publishes.**  After any cycles from a new aggregator, the last cycle has
    published the counts of its own votes exactly if, for every class that ever had a vote,
    the votes of the earlier cycles are a multiple of `2^32` and its own are below `2^31`. -/
theorem publishes_iff (databases : List Database) (earlier : List Cycle) (last : Cycle) :
    let agg : RsoAggregator := { databases }
    (agg.loop ((earlier ++ [last]).map Cycle.toPass)).Publishes (last.count agg.dictionary) ↔
      ∀ k, 0 < Cycle.total agg.dictionary k (earlier ++ [last]) →
        2 ^ 32 ∣ Cycle.total agg.dictionary k earlier ∧
          last.count agg.dictionary k < 2 ^ 31 := by
  intro agg
  obtain ⟨hprev, hdict, hstats⟩ := lookup_loop (d := agg.dictionary) rfl (.inl rfl) earlier
  have hlast : agg.loop ((earlier ++ [last]).map Cycle.toPass) =
      (agg.loop (earlier.map Cycle.toPass)).init last.toPass := by
    simp [RsoAggregator.loop]
  have htotal : ∀ k, Cycle.total agg.dictionary k (earlier ++ [last]) =
      Cycle.total agg.dictionary k earlier + last.count agg.dictionary k := by
    simp [Cycle.total]
  have hearlier : ∀ k, (agg.loop (earlier.map Cycle.toPass)).stats.lookup k =
      counted (Cycle.total agg.dictionary k earlier) none := by
    intro k
    rw [hprev, show agg.stats.lookup k = none from Statistics.lookup_new {} k]
  rw [hlast, publishes_init_iff hdict.symm hstats hearlier last]
  simp only [htotal]

/-- If every pass cleared the statistics first, as the loop in `process` that is commented
    out does after each of its own, it would publish the counts of its own votes. -/
theorem publishes_of_clear {agg : RsoAggregator} {d : Dictionary} (hd : d = agg.dictionary)
    (hstats : agg.stats.toDictionary = {} ∨ agg.stats.toDictionary = d) (c : Cycle)
    (hsize : ∀ k, c.count d k < 2 ^ 31) :
    ({ agg with stats := agg.stats.clear }.init c.toPass).Publishes (c.count d) := by
  -- cleared statistics are those of no earlier votes
  have hcleared : ∀ k, agg.stats.clear.lookup k = counted 0 none :=
    fun k => Statistics.lookup_clear agg.stats k
  refine (publishes_init_iff (d := d) ?_ ?_ hcleared c).mpr fun k _ => ⟨Nat.dvd_zero _, hsize k⟩
  · exact hd
  · rwa [Statistics.clear_toDictionary]

/-- A pass over one instance with one vote. -/
def Sample.cycle : Cycle where
  mongo := [{ documents := [vote "a" 1 1] }]
  postgres := fun _ => {}
  clock := clock
  content := collected [{ documents := [vote "a" 1 1] }]
  mongo_connected := by decide
  postgres_ok := fun _ => rfl
  wellFormed := by decide
  stored_iff := fun rowId vi => by
    rw [lookup_collected (by decide) (by decide)]
    simp [MongoInstance.Connected]
  hasRowId := by decide

/-- The second pass over an unchanged store publishes twice the number of votes. -/
theorem second_cycle_counts_again :
    ¬ (RsoAggregator.loop { databases := [Sample.database] }
        [Sample.cycle.toPass, Sample.cycle.toPass]).Publishes
      (Sample.cycle.count Sample.database.dictionary) := by
  intro h
  exact absurd (h.1 (.candidate 1) 2 (by decide)) (by decide)

end RsoVoting.Aggregator
