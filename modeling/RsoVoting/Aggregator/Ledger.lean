import RsoVoting.Aggregator.FailedTransactions
import RsoVoting.Aggregator.ExactCount

namespace RsoVoting.Aggregator

open RsoVoting

/-!
# The ledger of the aggregator

An aggregator goes on whatever fails in a pass: it counts what it could read, with whatever
dictionaries it could load, and writes what the servers accept.  This file follows the counts
through any number of passes, with any failures:

* `Counted` / `RsoAggregator.ledger` — the votes as they have been counted, pass by pass, each
  with the party and the age group that the dictionaries of its pass gave it;
* `lookup_stats_loop` — the statistics are the tally of the ledger;
* `balanced_of_loop` — so the six maps always agree with each other;
* `lookup_databases_init` — what a pass makes of a row, whatever fails;
* `rows_of_loop` — a published row is the running total of some pass, and refers to rows of
  the dictionary tables;
* `row_recovers` — a pass that gets through makes up for all earlier ones that did not;
* `rows_never_decrease` — no published count of a running aggregator ever goes down.
-/

/-! ### What has been counted -/

/-- A vote as it has been counted. -/
structure Counted where
  partyId : Int32
  ageId : Int32
  vote : VoteInfo

/-- Whether a row counts it. -/
def Counted.inClass (e : Counted) : ResultKey → Bool
  | .candidate c      => e.vote.vote = c
  | .percent p        => e.partyId = p
  | .age p a          => (e.partyId, e.ageId) = (p, a)
  | .education p x    => (e.partyId, e.vote.education) = (p, x)
  | .sex p x          => (e.partyId, e.vote.gender) = (p, x)
  | .constituency p c => (e.partyId, e.vote.votingArea) = (p, c)

/-- The votes of a map as they are counted with a dictionary. -/
def VoteMap.counts (d : Dictionary) (clock : Option String → Clock) (map : VoteMap) :
    List Counted :=
  map.entries.map fun e =>
    { partyId := d.partyId e.2, ageId := d.ageId (clock e.1) e.2, vote := e.2 }

theorem VoteMap.countP_counts (d : Dictionary) (clock : Option String → Clock) (map : VoteMap)
    (k : ResultKey) :
    (map.counts d clock).countP (fun e => e.inClass k) = map.classCount d clock k := by
  rw [VoteMap.counts, List.countP_map]
  cases k <;> rfl

namespace RsoAggregator

/-- The statistics of a pass once `getDictionaries()` has loaded what it could. -/
def prepared (agg : RsoAggregator) (pass : Pass) : Statistics :=
  (getDictionaries (agg.connected pass) agg.stats).1

/-- What a pass counts. -/
def entries (agg : RsoAggregator) (pass : Pass) : List Counted :=
  VoteMap.counts (agg.prepared pass).toDictionary pass.clock (collected pass.mongo)

/-- What passes count, one after the other. -/
def ledger : RsoAggregator → List Pass → List Counted
  | _,   []             => []
  | agg, pass :: passes => agg.entries pass ++ ledger (agg.init pass) passes

variable (agg : RsoAggregator) (pass : Pass) (passes : List Pass) (k : ResultKey)

/-- The number of votes that passes count under a key. -/
def total : ℕ := (agg.ledger passes).countP fun e => e.inClass k

theorem loop_append (before after : List Pass) :
    agg.loop (before ++ after) = (agg.loop before).loop after :=
  List.foldl_append

theorem ledger_append (before after : List Pass) :
    agg.ledger (before ++ after) = agg.ledger before ++ (agg.loop before).ledger after := by
  induction before generalizing agg with
  | nil => rfl
  | cons pass before ih =>
    show agg.entries pass ++ (agg.init pass).ledger (before ++ after) = _
    rw [ih, ← List.append_assoc]
    rfl

theorem total_append (before after : List Pass) :
    agg.total (before ++ after) k = agg.total before k + (agg.loop before).total after k := by
  unfold total
  rw [ledger_append, List.countP_append]

/-- One pass counts its entries on top of the statistics; no failure takes any back. -/
theorem lookup_stats_init :
    (agg.init pass).stats.lookup k = counted (agg.total [pass] k) (agg.stats.lookup k) := by
  have htotal : agg.total [pass] k =
      (collected pass.mongo).classCount (agg.prepared pass).toDictionary pass.clock k := by
    rw [total, ledger, ledger, List.append_nil, entries, VoteMap.countP_counts]
  -- the dictionaries are loaded beside the maps
  have hmaps : (agg.prepared pass).lookup k = agg.stats.lookup k := by cases k <;> rfl
  show ((agg.prepared pass).calculateAll pass.clock (collected pass.mongo)).lookup k = _
  rw [Statistics.lookup_calculateAll, htotal, hmaps]

/-- **The statistics are the tally of the ledger**, after any passes with any failures. -/
theorem lookup_stats_loop :
    (agg.loop passes).stats.lookup k = counted (agg.total passes k) (agg.stats.lookup k) := by
  induction passes generalizing agg with
  | nil => rfl
  | cons pass passes ih =>
    have htotal : agg.total (pass :: passes) k =
        agg.total [pass] k + (agg.init pass).total passes k := agg.total_append k [pass] passes
    rw [htotal, Nat.add_comm, counted_add, ← agg.lookup_stats_init pass k]
    exact ih (agg.init pass)

/-- A pass counts every vote it has collected once. -/
theorem length_ledger :
    (agg.ledger passes).length =
      (passes.map fun pass => (collected pass.mongo).entries.length).sum := by
  induction passes generalizing agg with
  | nil => rfl
  | cons pass passes ih =>
    rw [ledger, List.length_append, ih, List.map_cons, List.sum_cons, entries, VoteMap.counts,
      List.length_map]

end RsoAggregator

/-! ### The maps agree -/

/-- The rows of party `p` in four of the maps sum to its entry in `resPartyPercentMap`. -/
def Statistics.Balanced (s : Statistics) (p : Int32) : Prop :=
  Table.sum (fun k => k.1 = p) Int32.toInt s.resPartyAgeMap = s.value (.percent p) ∧
  Table.sum (fun k => k.1 = p) Int32.toInt s.resPartyEducationMap = s.value (.percent p) ∧
  Table.sum (fun k => k.1 = p) Int32.toInt s.resPartySexMap = s.value (.percent p) ∧
  Table.sum (fun k => k.1 = p) Int32.toInt s.resPartyConstituencyMap = s.value (.percent p)

/-- **The six maps always agree.**  After any passes of a new aggregator, whatever instances
    and statements fail in them and whatever dictionaries they count with, each map sums to
    the number of votes that have been collected, and four of them, party by party, to the
    entry of the party, as long as no counter overflows. -/
theorem balanced_of_loop (databases : List Database) (passes : List Pass)
    (hsize : ∀ k, RsoAggregator.total { databases } passes k < 2 ^ 31) :
    let stats := (RsoAggregator.loop { databases } passes).stats
    stats.Totals (passes.map fun pass => (collected pass.mongo).entries.length).sum ∧
      ∀ p, stats.Balanced p := by
  intro stats
  obtain ⟨es, hes⟩ : ∃ es, es = RsoAggregator.ledger { databases } passes := ⟨_, rfl⟩
  have hlook : ∀ k, stats.lookup k = counted (es.countP fun e => e.inClass k) none := by
    intro k
    have h := RsoAggregator.lookup_stats_loop { databases } passes k
    rwa [show RsoAggregator.total { databases } passes k = es.countP fun e => e.inClass k by
      rw [RsoAggregator.total, hes], show (RsoAggregator.stats { databases }).lookup k = none from
      Statistics.lookup_new {} k] at h
  have hsmall : ∀ k, (es.countP fun e => e.inClass k) < 2 ^ 31 := by
    intro k
    rw [hes]
    exact hsize k
  -- the key of each map, as a function of what has been counted
  have hcand := sum_of_counted (fun e : Counted => e.vote.vote) (fun c => hlook (.candidate c))
    fun c => hsmall (.candidate c)
  have hperc := sum_of_counted (fun e : Counted => e.partyId) (fun p => hlook (.percent p))
    fun p => hsmall (.percent p)
  have hage := sum_of_counted (fun e : Counted => (e.partyId, e.ageId))
    (fun k => hlook (.age k.1 k.2)) fun k => hsmall (.age k.1 k.2)
  have hedu := sum_of_counted (fun e : Counted => (e.partyId, e.vote.education))
    (fun k => hlook (.education k.1 k.2)) fun k => hsmall (.education k.1 k.2)
  have hsex := sum_of_counted (fun e : Counted => (e.partyId, e.vote.gender))
    (fun k => hlook (.sex k.1 k.2)) fun k => hsmall (.sex k.1 k.2)
  have hcons := sum_of_counted (fun e : Counted => (e.partyId, e.vote.votingArea))
    (fun k => hlook (.constituency k.1 k.2)) fun k => hsmall (.constituency k.1 k.2)
  constructor
  · have hall : (es.countP fun _ => true) =
        (passes.map fun pass => (collected pass.mongo).entries.length).sum := by
      rw [List.countP_true, hes, RsoAggregator.length_ledger]
    rw [← hall]
    exact ⟨hcand _, hperc _, hage _, hedu _, hsex _, hcons _⟩
  · intro p
    -- all four count what has been counted for the party
    have hvalue : stats.value (.percent p) = es.countP fun e => e.partyId = p := by
      rw [Statistics.value, hlook, toInt_counted_none (hsmall _)]
      rfl
    unfold Statistics.Balanced
    rw [hvalue]
    exact ⟨hage _, hedu _, hsex _, hcons _⟩

/-! #### A sample run -/

namespace Sample

/-- A pass over the vote of the sample cycle in which the server rejects both `select`s. -/
def failedPass : Pass where
  mongo := cycle.mongo
  postgres := fun _ => { selectCandidates := .statement, selectAge := .statement }
  clock := clock

/-- A pass over the same vote in which the server is down. -/
def downPass : Pass where
  mongo := cycle.mongo
  postgres := fun _ => { reachable := false }
  clock := clock

/-- A new aggregator, and two passes of which the first one fails. -/
def aggregator : RsoAggregator := { databases := [database] }

def passes : List Pass := [failedPass, cycle.toPass]

theorem total_passes_le (k : ResultKey) : aggregator.total passes k ≤ 2 :=
  List.countP_le_length.trans_eq ((aggregator.length_ledger passes).trans (by decide))

end Sample

/-- The maps agree after a pass that fails and one that does not. -/
theorem balanced_of_loop_sample :
    let stats := (Sample.aggregator.loop Sample.passes).stats
    stats.Totals 2 ∧ ∀ p, stats.Balanced p := by
  have hsum : (Sample.passes.map fun pass => (collected pass.mongo).entries.length).sum = 2 := by
    decide
  have h := balanced_of_loop [Sample.database] Sample.passes fun k =>
    Nat.lt_of_le_of_lt (Sample.total_passes_le k) (by decide)
  rw [hsum] at h
  exact h

/-! ### The rows -/

namespace RsoAggregator

variable {agg : RsoAggregator} {pass : Pass} {i : ℕ} {db' : Database}

/-- Whether a pass writes to an instance: it is up, and the server has rejected no `select` of
    a dictionary there. -/
def writes (agg : RsoAggregator) (pass : Pass) (i : ℕ) : Bool :=
  (getDictionaries (agg.connected pass) agg.stats).2[i]?.any PostgresInstance.isActive

/-- Loading the dictionaries writes to no instance. -/
theorem committed_getDictionaries (agg : RsoAggregator) (pass : Pass) (i : ℕ) :
    (getDictionaries (agg.connected pass) agg.stats).2[i]?.map (fun pi => pi.conn.committed) =
      agg.databases[i]? := by
  have hread := (DictName.dAge.committed_getDictData agg.stats _ i).trans
    (DictName.dCandidates.committed_getDictData agg.stats (agg.connected pass) i)
  have hconn : (agg.connected pass)[i]?.map (fun pi => pi.conn.committed) = agg.databases[i]? := by
    rw [connected, connectAll, List.getElem?_map, List.getElem?_mapIdx, Option.map_map,
      Option.map_map]
    exact Option.map_id'
  exact hread.trans hconn

/-- An instance after the dictionaries are loaded: its tables are those from before, and its
    transaction has written nothing. -/
theorem eq_of_getDictionaries {pi : PostgresInstance}
    (hpi : (getDictionaries (agg.connected pass) agg.stats).2[i]? = some pi) :
    pi.behaviour = pass.postgres i ∧ pi.Settled ∧ agg.databases[i]? = some pi.conn.committed := by
  have hbehaves := agg.behaves_connected pass
  have hread := committed_getDictionaries agg pass i
  rw [hpi] at hread
  exact ⟨hbehaves.getDictionaries agg.stats i pi hpi,
    run_settled (hbehaves.run_dictionaryCalls agg.stats) pi (List.mem_of_getElem? hpi), hread.symm⟩

/-- An instance has its tables before and after a pass. -/
theorem exists_databases_init {db : Database} (h : agg.databases[i]? = some db) :
    ∃ db', (agg.init pass).databases[i]? = some db' := by
  rw [← committed_getDictionaries agg pass i, Option.map_eq_some_iff] at h
  obtain ⟨pi, hpi, -⟩ := h
  have hinit : (agg.init pass).databases =
      (insertStats (agg.init pass).stats
        (getDictionaries (agg.connected pass) agg.stats).2).map fun pi => pi.conn.committed := rfl
  rw [hinit, insertStats_eq, insertRes, List.getElem?_map, List.getElem?_map, hpi]
  exact ⟨_, rfl⟩

/-- **What a pass makes of a row**, whatever fails in it. -/
theorem lookup_databases_init (h : (agg.init pass).databases[i]? = some db') :
    ∃ db, agg.databases[i]? = some db ∧ db'.toDictTables = db.toDictTables ∧
      ∀ k, db'.lookup k =
        if (agg.writes pass i && (pass.postgres i).accepts db.toDictTables k) = true then
          ((agg.init pass).stats.lookup k).or (db.lookup k)
        else db.lookup k := by
  have hinit : (agg.init pass).databases =
      (insertStats (agg.init pass).stats
        (getDictionaries (agg.connected pass) agg.stats).2).map fun pi => pi.conn.committed := rfl
  rw [hinit, insertStats_eq, insertRes, List.getElem?_map, List.getElem?_map,
    Option.map_map, Option.map_eq_some_iff] at h
  obtain ⟨pi, hpi, rfl⟩ := h
  obtain ⟨hbehaviour, hsettled, hdb⟩ := eq_of_getDictionaries hpi
  have hwrites : agg.writes pass i = pi.isActive := by rw [writes, hpi, Option.any_some]
  refine ⟨_, hdb, ?_⟩
  rw [hwrites, ← hbehaviour]
  cases hactive : pi.isActive with
  | false =>
    simp only [Function.comp, PostgresInstance.insertRows, hactive]
    exact ⟨rfl, fun _ => rfl⟩
  | true =>
    -- its transaction is closed, so each row is a transaction of its own
    have hstore := insertRows_connect (agg.init pass).stats.rows pi.conn.committed pi.behaviour
    rw [← hsettled.eq_connect hactive] at hstore
    simp only [Function.comp, hstore, Bool.true_and]
    exact ⟨pi.behaviour.store_toDictTables _ _, pi.behaviour.lookup_store _ _⟩

/-- An instance keeps its dictionary tables through any passes. -/
theorem exists_databases_loop {passes : List Pass} {db : Database}
    (h : agg.databases[i]? = some db) :
    ∃ db', (agg.loop passes).databases[i]? = some db' ∧ db'.toDictTables = db.toDictTables := by
  induction passes generalizing agg db with
  | nil => exact ⟨db, h, rfl⟩
  | cons pass passes ih =>
    obtain ⟨db₁, hdb₁⟩ : ∃ db₁, (agg.init pass).databases[i]? = some db₁ :=
      exists_databases_init h
    obtain ⟨db₀, hdb₀, htables, -⟩ := lookup_databases_init hdb₁
    obtain rfl := Option.some.inj (h.symm.trans hdb₀)
    obtain ⟨db', hdb', htables'⟩ := ih hdb₁
    exact ⟨db', hdb', htables'.trans htables⟩

end RsoAggregator

/-- **A published row is the running total of a pass.**  After any passes, whatever fails in
    them, a row of a result table is the one from before the first of them, or what has been
    counted under its key by the end of one of them; and then all its ids are in the
    dictionary tables, which are never written. -/
theorem rows_of_loop {agg : RsoAggregator} {passes : List Pass} {i : ℕ} {db' : Database}
    (h : (agg.loop passes).databases[i]? = some db') :
    ∃ db, agg.databases[i]? = some db ∧ db'.toDictTables = db.toDictTables ∧
      ∀ k v, db'.lookup k = some v → db.lookup k = some v ∨
        db.references k = true ∧ ∃ before, before ≠ [] ∧ before <+: passes ∧
          counted (agg.total before k) (agg.stats.lookup k) = some v := by
  induction passes using List.reverseRecOn generalizing db' with
  | nil => exact ⟨db', h, rfl, fun k v hv => .inl hv⟩
  | append_singleton passes pass ih =>
    rw [agg.loop_append] at h
    obtain ⟨db₁, hdb₁, htables₁, hrows₁⟩ := RsoAggregator.lookup_databases_init h
    obtain ⟨db, hdb, htables, hrows⟩ := ih hdb₁
    refine ⟨db, hdb, htables₁.trans htables, fun k v hv => ?_⟩
    have hold : db₁.lookup k = some v → db.lookup k = some v ∨
        db.references k = true ∧ ∃ before, before ≠ [] ∧ before <+: passes ++ [pass] ∧
          counted (agg.total before k) (agg.stats.lookup k) = some v := fun hv =>
      (hrows k v hv).imp_right fun h => h.imp_right fun ⟨before, hne, hprefix, hcount⟩ =>
        ⟨before, hne, hprefix.trans (List.prefix_append passes [pass]), hcount⟩
    rw [hrows₁] at hv
    split at hv
    · next hacc =>
      rcases Option.or_eq_some_iff.mp hv with hnew | ⟨-, hv⟩
      · -- written in this pass, from the statistics at its end
        refine .inr ⟨?_, passes ++ [pass], by simp, List.prefix_refl _, ?_⟩
        · simp only [Behaviour.accepts, Bool.and_eq_true, htables] at hacc
          exact hacc.2.2
        · rw [← RsoAggregator.lookup_stats_loop, agg.loop_append]
          exact hnew
      · exact hold hv
    · exact hold hv

/-- The row of the sample passes is the total of both. -/
theorem rows_of_loop_sample :
    ∃ before, before ≠ [] ∧ before <+: Sample.passes ∧
      counted (Sample.aggregator.total before (.candidate 1)) none = some 2 := by
  have hrow : ((Sample.aggregator.loop Sample.passes).databases[0]?.bind fun db =>
      db.lookup (.candidate 1)) = some 2 := by decide
  obtain ⟨db', hdb', hlookup⟩ := Option.bind_eq_some_iff.mp hrow
  obtain ⟨db, hdb, -, hrows⟩ := rows_of_loop hdb'
  obtain rfl : Sample.database = db := Option.some.inj hdb
  rcases hrows _ _ hlookup with hold | ⟨-, before, hne, hprefix, hcount⟩
  · exact absurd hold (by decide)
  · exact ⟨before, hne, hprefix, hcount⟩

/-- A pass writes to an instance that is up and answers the `select`s of the dictionaries. -/
theorem RsoAggregator.writes_of_answers {agg : RsoAggregator} {pass : Pass} {i : ℕ}
    {db : Database} (hdb : agg.databases[i]? = some db)
    (hup : (pass.postgres i).reachable = true)
    (hselect : ∀ dictName : DictName, dictName.fault (pass.postgres i) ≠ .statement) :
    agg.writes pass i = true := by
  have hkept : ∀ (dictName : DictName) (instances : List PostgresInstance),
      instances[i]? = some (.connect db (pass.postgres i)) →
      (dictName.getDictData agg.stats instances)[i]? =
        some (.connect db (pass.postgres i)) := by
    intro dictName instances hi
    have hok : dictName.fault (PostgresInstance.connect db (pass.postgres i)).behaviour ≠
      .statement := hselect dictName
    rw [dictName.getElem?_getDictData, hi, Option.map_some]
    simp [hok]
  have hconn : (agg.connected pass)[i]? = some (.connect db (pass.postgres i)) := by
    simp [connected, connectAll, hdb]
  have hpi : (getDictionaries (agg.connected pass) agg.stats).2[i]? =
      some (.connect db (pass.postgres i)) := hkept .dAge _ (hkept .dCandidates _ hconn)
  rw [writes, hpi, Option.any_some]
  simp [PostgresInstance.isActive, PostgresInstance.connect, hup]

/-- After a pass in which nothing goes wrong for it, a row shows everything that has been
    counted since the start. -/
theorem RsoAggregator.lookup_of_pass {agg : RsoAggregator} {passes : List Pass} {pass : Pass}
    {i : ℕ} {db' : Database} (h : (agg.loop (passes ++ [pass])).databases[i]? = some db')
    (hup : (pass.postgres i).reachable = true)
    (hselect : ∀ dictName : DictName, dictName.fault (pass.postgres i) ≠ .statement)
    {k : ResultKey} (hupsert : (pass.postgres i).upsert k = .none)
    (href : db'.references k = true) (hpos : 0 < agg.total (passes ++ [pass]) k) :
    db'.lookup k = counted (agg.total (passes ++ [pass]) k) (agg.stats.lookup k) := by
  rw [← agg.lookup_stats_loop]
  have hsome : ((agg.loop (passes ++ [pass])).stats.lookup k).isSome = true := by
    rw [agg.lookup_stats_loop]
    exact isSome_counted.mpr (.inr hpos)
  rw [agg.loop_append] at h hsome ⊢
  obtain ⟨db, hdb, htables, hrows⟩ := RsoAggregator.lookup_databases_init h
  have hwrites := RsoAggregator.writes_of_answers hdb hup hselect
  have hacc : (pass.postgres i).accepts db.toDictTables k = true := by
    rw [htables] at href
    simp [Behaviour.accepts, hup, hupsert, href]
  have hrow := hrows k
  rw [hwrites, hacc, Bool.and_self, if_pos rfl] at hrow
  exact hrow.trans (Option.or_of_isSome hsome)

/-- **A pass that gets through makes up for all that did not.**  Whatever failed before, an
    instance that is up in a pass, answers its `select`s and does not reject the row shows
    everything that has been counted until then, and goes on showing it through passes in
    which it is down or rejects the row. -/
theorem row_recovers {agg : RsoAggregator} {before after : List Pass} {pass : Pass} {i : ℕ}
    {db' : Database} (h : (agg.loop (before ++ pass :: after)).databases[i]? = some db')
    (hup : (pass.postgres i).reachable = true)
    (hselect : ∀ dictName : DictName, dictName.fault (pass.postgres i) ≠ .statement)
    {k : ResultKey} (hupsert : (pass.postgres i).upsert k = .none)
    (href : db'.references k = true) (hpos : 0 < agg.total (before ++ [pass]) k)
    (hafter : ∀ pass' ∈ after,
      (pass'.postgres i).reachable = false ∨ (pass'.postgres i).upsert k ≠ .none) :
    db'.lookup k = counted (agg.total (before ++ [pass]) k) (agg.stats.lookup k) := by
  induction after using List.reverseRecOn generalizing db' with
  | nil => exact RsoAggregator.lookup_of_pass h hup hselect hupsert href hpos
  | append_singleton after pass' ih =>
    rw [← List.cons_append, ← List.append_assoc, agg.loop_append] at h
    obtain ⟨db, hdb, htables, hrows⟩ := RsoAggregator.lookup_databases_init h
    have hrejects : (pass'.postgres i).accepts db.toDictTables k = false := by
      rcases hafter pass' (by simp) with hdown | hfault <;> simp [Behaviour.accepts, *]
    rw [hrows, hrejects, Bool.and_false, if_neg Bool.false_ne_true]
    apply ih hdb
    · rwa [htables] at href
    · exact fun pass'' hmem => hafter pass'' (List.mem_append_left _ hmem)

/-- The second pass of the sample publishes the votes of the first one as well, and they stay
    published while the instance is down. -/
theorem row_recovers_sample :
    ∃ db', (Sample.aggregator.loop (Sample.passes ++ [Sample.downPass])).databases[0]? =
      some db' ∧ db'.lookup (.candidate 1) = some 2 := by
  have hrefs : ((Sample.aggregator.loop (Sample.passes ++ [Sample.downPass])).databases[0]?.map
      fun db => db.references (.candidate 1)) = some true := by decide
  obtain ⟨db', hdb', href⟩ := Option.map_eq_some_iff.mp hrefs
  have hloop : (Sample.aggregator.loop ([Sample.failedPass] ++
      Sample.cycle.toPass :: [Sample.downPass])).databases[0]? = some db' := hdb'
  have hrow := row_recovers (k := .candidate 1) hloop rfl
    (fun dictName => by cases dictName <;> decide) rfl href (by decide) (by simp [Sample.downPass])
  exact ⟨db', hdb', hrow.trans (by decide)⟩

/-! ### Published counts do not go down -/

/-- The count that a row shows, 0 if it is absent. -/
def Database.value (db : Database) (k : ResultKey) : ℤ := (db.lookup k).elim 0 Int32.toInt

/-- No row shows more than the statistics of the aggregator: its tables have been written by
    itself only. -/
def RsoAggregator.Leads (agg : RsoAggregator) : Prop :=
  ∀ db ∈ agg.databases, ∀ k, db.value k ≤ agg.stats.value k

section Leads

variable {agg : RsoAggregator} {pass : Pass} {i : ℕ} {db' : Database}

/-- The value of an entry after passes that do not let it overflow. -/
theorem RsoAggregator.value_stats_loop {passes : List Pass} {k : ResultKey}
    (hsize : agg.stats.value k + agg.total passes k < 2 ^ 31) :
    (agg.loop passes).stats.value k = agg.stats.value k + agg.total passes k := by
  unfold Statistics.value at hsize ⊢
  rw [agg.lookup_stats_loop]
  exact toInt_counted hsize

theorem RsoAggregator.value_stats_init {k : ResultKey}
    (hsize : agg.stats.value k + agg.total [pass] k < 2 ^ 31) :
    (agg.init pass).stats.value k = agg.stats.value k + agg.total [pass] k :=
  show (agg.loop [pass]).stats.value k = _ from RsoAggregator.value_stats_loop hsize

/-- **Step lemma.**  A pass lowers no row, and leaves the statistics ahead of all of them. -/
theorem RsoAggregator.Leads.value_init (hlead : agg.Leads)
    (hsize : ∀ k, agg.stats.value k + agg.total [pass] k < 2 ^ 31)
    (h : (agg.init pass).databases[i]? = some db') :
    ∃ db, agg.databases[i]? = some db ∧
      ∀ k, db.value k ≤ db'.value k ∧ db'.value k ≤ (agg.init pass).stats.value k := by
  obtain ⟨db, hdb, -, hrows⟩ := RsoAggregator.lookup_databases_init h
  refine ⟨db, hdb, fun k => ?_⟩
  have hle : db.value k ≤ (agg.init pass).stats.value k := by
    have hstats := RsoAggregator.value_stats_init (hsize k)
    have hold := hlead db (List.mem_of_getElem? hdb) k
    omega
  -- the row is kept, or becomes the entry
  have hcases : db'.value k = db.value k ∨ db'.value k = (agg.init pass).stats.value k := by
    unfold Database.value Statistics.value
    rw [hrows]
    split
    · cases (agg.init pass).stats.lookup k with
      | none   => exact .inl rfl
      | some v => exact .inr rfl
    · exact .inl rfl
  omega

/-- **Run lemma.** -/
theorem RsoAggregator.Leads.value_loop {passes : List Pass} (hlead : agg.Leads)
    (hsize : ∀ k, agg.stats.value k + agg.total passes k < 2 ^ 31)
    (h : (agg.loop passes).databases[i]? = some db') :
    ∃ db, agg.databases[i]? = some db ∧
      ∀ k, db.value k ≤ db'.value k ∧ db'.value k ≤ (agg.loop passes).stats.value k := by
  induction passes generalizing agg with
  | nil => exact ⟨db', h, fun k => ⟨le_rfl, hlead db' (List.mem_of_getElem? h) k⟩⟩
  | cons pass passes ih =>
    have htotal : ∀ k, agg.total (pass :: passes) k =
        agg.total [pass] k + (agg.init pass).total passes k :=
      fun k => agg.total_append k [pass] passes
    have hfirst : ∀ k, agg.stats.value k + agg.total [pass] k < 2 ^ 31 := by
      intro k
      have hk := hsize k
      rw [htotal] at hk
      omega
    have hlead' : (agg.init pass).Leads := by
      intro db hdb k
      obtain ⟨j, hj⟩ := List.getElem?_of_mem hdb
      obtain ⟨_, -, hle⟩ := hlead.value_init hfirst hj
      exact (hle k).2
    obtain ⟨db₁, hdb₁, hle₁⟩ := ih hlead' (fun k => by
      have hk := hsize k
      have hstats := RsoAggregator.value_stats_init (hfirst k)
      rw [htotal] at hk
      omega) h
    obtain ⟨db, hdb, hle⟩ := hlead.value_init hfirst hdb₁
    exact ⟨db, hdb, fun k => ⟨(hle k).1.trans (hle₁ k).1, (hle₁ k).2⟩⟩

end Leads

/-- **No published count goes down.**  While an aggregator runs over tables that it alone has
    written, and no counter overflows, no pass lowers any row of any instance, whatever fails
    in it and in the others. -/
theorem rows_never_decrease {agg : RsoAggregator} (hlead : agg.Leads) {before after : List Pass}
    (hsize : ∀ k, agg.stats.value k + agg.total (before ++ after) k < 2 ^ 31) {i : ℕ}
    {db db' : Database} (hdb : (agg.loop before).databases[i]? = some db)
    (hdb' : (agg.loop (before ++ after)).databases[i]? = some db') (k : ResultKey) :
    db.value k ≤ db'.value k := by
  have hbefore : ∀ k, agg.stats.value k + agg.total before k < 2 ^ 31 := by
    intro k
    have hk := hsize k
    rw [agg.total_append] at hk
    omega
  -- after the first passes the aggregator leads as well
  have hlead' : (agg.loop before).Leads := by
    intro db hdb k
    obtain ⟨j, hj⟩ := List.getElem?_of_mem hdb
    obtain ⟨_, -, hle⟩ := hlead.value_loop hbefore hj
    exact (hle k).2
  rw [agg.loop_append] at hdb'
  obtain ⟨db₁, hdb₁, hle⟩ := hlead'.value_loop (fun k => by
    have hk := hsize k
    rw [agg.total_append] at hk
    rw [RsoAggregator.value_stats_loop (hbefore k)]
    omega) hdb'
  obtain rfl := Option.some.inj (hdb.symm.trans hdb₁)
  exact (hle k).1

/-- The rows of the sample do not go down in the second pass. -/
theorem rows_never_decrease_sample :
    ∃ db db', (Sample.aggregator.loop [Sample.failedPass]).databases[0]? = some db ∧
      (Sample.aggregator.loop Sample.passes).databases[0]? = some db' ∧
      ∀ k, db.value k ≤ db'.value k := by
  have hlead : Sample.aggregator.Leads := by
    intro db hdb k
    obtain rfl := List.mem_singleton.mp hdb
    cases k <;> exact le_rfl
  have hempty : ∀ k, Sample.aggregator.stats.value k = 0 := by
    intro k
    rw [Statistics.value,
      show Sample.aggregator.stats.lookup k = none from Statistics.lookup_new {} k]
    rfl
  have hsome : ∀ passes : List Pass, passes = [Sample.failedPass] ∨ passes = Sample.passes →
      ∃ db, (Sample.aggregator.loop passes).databases[0]? = some db := by
    rintro passes (rfl | rfl) <;> exact Option.isSome_iff_exists.mp (by decide)
  obtain ⟨db, hdb⟩ := hsome _ (.inl rfl)
  obtain ⟨db', hdb'⟩ := hsome _ (.inr rfl)
  have hsize : ∀ k, Sample.aggregator.stats.value k +
      Sample.aggregator.total ([Sample.failedPass] ++ [Sample.cycle.toPass]) k < 2 ^ 31 := by
    intro k
    have hle : Sample.aggregator.total ([Sample.failedPass] ++ [Sample.cycle.toPass]) k ≤ 2 :=
      Sample.total_passes_le k
    rw [hempty]
    omega
  exact ⟨db, db', hdb, hdb', rows_never_decrease hlead hsize hdb hdb'⟩

end RsoVoting.Aggregator
