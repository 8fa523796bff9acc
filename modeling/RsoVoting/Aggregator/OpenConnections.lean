import RsoVoting.Lib.Handles

namespace RsoVoting.Aggregator

open RsoVoting

/-!
# What a cycle leaves open

`prepareDB()` makes the two handlers, which connect to all their instances and try again as
long as none connects, and closes them at the end.  A Mongo instance keeps its `MongoClient`
in a field and a Postgres instance its `Connection`; each is closed only if the instance is
marked as active at the end, and a pass through the instances marks them again and again.

* `MongoHost` / `PostgresHost` — an instance, with everything that its host answers in a
  cycle: which attempts to connect go through, and which later pings and probes;
* `prepareDB` — the cycle, as far as it makes, marks and closes connections;
* `closes_all_iff` — exactly when it closes all connections that it has made;
* `lost_host_leaks` — a host that is up when the handlers connect, but not at the end.

That a connection is made again after an attempt in which no host connected, and what the
statements in between do, is part of what the hosts answer.
-/

/-! ### The instances -/

/-- A Mongo instance, with the answers of its host. -/
structure MongoHost where
  /-- Whether the ping of `setConnection()` is answered, in every round. -/
  connects : ℕ → Bool
  /-- Whether the ping of `checkStatus()` is answered. -/
  ping : Bool
  mongoClient : Handles := {}

/-- What becomes of `DriverManager.getConnection(…)` and `conn.setAutoCommit(false)`. -/
inductive Attempt where
  | refused
  | autoCommitFails
  | connected
deriving DecidableEq, Repr

/-- The methods of the handler that probe the instances. -/
inductive Probing where
  | candidates | age
  | insertResPartyCandidates | insertResPartyPercent | insertResPartyEducation
  | insertResPartySex | insertResPartyConstituency | insertResPartyAge
deriving DecidableEq, Repr

/-- A Postgres instance, with the answers of its host. -/
structure PostgresHost where
  /-- What comes of `setConnection()`, in every round. -/
  connects : ℕ → Attempt
  /-- Whether `select 1` goes through, on a connection that was made. -/
  probe : Probing → Bool
  /-- Whether the dictionary is read to its end. -/
  downloads : Probing → Bool := fun _ => true
  conn : Handles := {}

namespace MongoHost

/-- `setConnection()`: the client is made even if the host is down. -/
def setConnection (round : ℕ) (mi : MongoHost) : MongoHost :=
  let client := mi.mongoClient.create
  -- the flag is left alone when the ping fails
  { mi with mongoClient := if mi.connects round then client.mark true else client }

/-- `checkStatus()`. -/
def checkStatus (mi : MongoHost) : MongoHost :=
  { mi with mongoClient := mi.mongoClient.mark (mi.mongoClient.current.isSome && mi.ping) }

/-- The body of the loop in `close()`. -/
def close (mi : MongoHost) : MongoHost := { mi with mongoClient := mi.mongoClient.close }

end MongoHost

namespace PostgresHost

/-- `setConnection()`. -/
def setConnection (round : ℕ) (pi : PostgresHost) : PostgresHost :=
  match pi.connects round with
  | .refused         => pi
  | .autoCommitFails => { pi with conn := pi.conn.create }
  | .connected       => { pi with conn := pi.conn.create.mark true }

/-- `isActive()`, which also sets the flag. -/
def isActive (call : Probing) (pi : PostgresHost) : PostgresHost :=
  { pi with conn := pi.conn.mark (pi.conn.current.isSome && pi.probe call) }

/-- `close()`. -/
def close (pi : PostgresHost) : PostgresHost := { pi with conn := pi.conn.close }

end PostgresHost

/-! ### The cycle -/

/-- The loop of a handler's constructor: connect to all instances, and again while none of
    them has connected.  `rounds` bounds the number of rounds that are looked at; `none` if
    the loop goes on after them. -/
def connectToAll {I : Type} (setConnection : ℕ → I → I) (connects : ℕ → I → Bool) :
    (rounds round : ℕ) → List I → Option (List I)
  | 0, _, _                       => none
  | rounds + 1, round, instances =>
    let instances := instances.map (setConnection round)
    if instances.any (connects round) then some instances
    else connectToAll setConnection connects rounds (round + 1) instances

/-- `new MongoHandler(stats)`: the instances are made without a client. -/
def newMongoHandler (rounds : ℕ) (hosts : List MongoHost) : Option (List MongoHost) :=
  connectToAll MongoHost.setConnection (fun round mi => mi.connects round) rounds 0
    (hosts.map fun mi => { mi with mongoClient := {} })

/-- `new PostgresHandler(stats)`: the instances are made without a connection. -/
def newPostgresHandler (rounds : ℕ) (hosts : List PostgresHost) : Option (List PostgresHost) :=
  connectToAll PostgresHost.setConnection (fun round pi => pi.connects round = .connected)
    rounds 0 (hosts.map fun pi => { pi with conn := {} })

/-- `getDictData(dictName, columns)`: the instances are probed up to the first one from which
    the dictionary is downloaded. -/
def probeUntilDownloaded (call : Probing) : List PostgresHost → List PostgresHost
  | []         => []
  | pi :: rest =>
    let pi := pi.isActive call
    if pi.conn.active ∧ pi.downloads call then pi :: rest
    else pi :: probeUntilDownloaded call rest

/-- The body of `process()`: `getDictionaries()`, `getAllData()`, `insertStats()`.  The rows
    that are written make no difference to the connections. -/
def processInstances (handlers : List MongoHost × List PostgresHost) :
    List MongoHost × List PostgresHost :=
  let (mongo, postgres) := handlers
  let postgres := probeUntilDownloaded .candidates postgres
  let postgres := probeUntilDownloaded .age postgres
  let mongo := mongo.map MongoHost.checkStatus
  let postgres := postgres.map (·.isActive .insertResPartyCandidates)
  let postgres := postgres.map (·.isActive .insertResPartyPercent)
  let postgres := postgres.map (·.isActive .insertResPartyEducation)
  let postgres := postgres.map (·.isActive .insertResPartySex)
  let postgres := postgres.map (·.isActive .insertResPartyConstituency)
  let postgres := postgres.map (·.isActive .insertResPartyAge)
  (mongo, postgres)

/-- `mongoDB.close()` and `postDB.close()`. -/
def closeHandlers (handlers : List MongoHost × List PostgresHost) :
    List MongoHost × List PostgresHost :=
  (handlers.1.map MongoHost.close, handlers.2.map PostgresHost.close)

/-- `prepareDB()`, if it returns within these rounds. -/
def prepareDB (rounds : ℕ) (mongo : List MongoHost) (postgres : List PostgresHost) :
    Option (List MongoHost × List PostgresHost) := do
  let mongo ← newMongoHandler rounds mongo
  let postgres ← newPostgresHandler rounds postgres
  -- the handlers are closed at the end of `process` and once more at the end of `prepareDB`
  return closeHandlers (closeHandlers (processInstances (mongo, postgres)))

/-! ### The rounds -/

/-- The first round in which a host connects. -/
def FirstRound {I : Type} (connects : ℕ → I → Bool) (instances : List I) (last : ℕ) : Prop :=
  (∃ i ∈ instances, connects last i = true) ∧
    ∀ round < last, ∀ i ∈ instances, connects round i = false

theorem FirstRound.unique {I : Type} {connects : ℕ → I → Bool} {instances : List I}
    {last last' : ℕ} (h : FirstRound connects instances last)
    (h' : FirstRound connects instances last') : last = last' := by
  obtain ⟨⟨i, hi, hconn⟩, hbefore⟩ := h
  obtain ⟨⟨j, hj, hconn'⟩, hbefore'⟩ := h'
  rcases Nat.lt_trichotomy last last' with hlt | heq | hgt
  · simp [hbefore' last hlt i hi] at hconn
  · exact heq
  · simp [hbefore last' hgt j hj] at hconn'

/-- An instance after the rounds up to the last one. -/
def afterRounds {I : Type} (setConnection : ℕ → I → I) (last : ℕ) (i : I) : I :=
  (List.range (last + 1)).foldl (fun i round => setConnection round i) i

/-- The loop ends with the first round in which a host connects. -/
theorem connectToAll_eq_some {I : Type} {setConnection : ℕ → I → I} {connects : ℕ → I → Bool}
    (hanswer : ∀ round round' i, connects round (setConnection round' i) = connects round i)
    {rounds : ℕ} {instances result : List I}
    (h : connectToAll setConnection connects rounds 0 instances = some result) :
    ∃ last, FirstRound connects instances last ∧
      result = instances.map (afterRounds setConnection last) := by
  -- the loop in a later round, after the same attempts
  have hloop : ∀ rounds round, (∀ r < round, ∀ i ∈ instances, connects r i = false) →
      connectToAll setConnection connects rounds round
        (instances.map fun i => (List.range round).foldl (fun i r => setConnection r i) i) =
          some result →
      ∃ last, FirstRound connects instances last ∧
        result = instances.map (afterRounds setConnection last) := by
    intro rounds
    induction rounds with
    | zero =>
      intro round _ h
      cases h
    | succ rounds ih =>
      intro round hbefore h
      have hmap : (instances.map fun i => (List.range round).foldl
          (fun i r => setConnection r i) i).map (setConnection round) =
          instances.map (afterRounds setConnection round) := by
        simp [afterRounds, List.range_succ, Function.comp_def]
      have hkept : ∀ r i, connects r (afterRounds setConnection round i) = connects r i := by
        intro r i
        unfold afterRounds
        induction List.range (round + 1) generalizing i with
        | nil => rfl
        | cons r' rs ih => rw [List.foldl_cons, ih, hanswer]
      rw [connectToAll] at h
      simp only [hmap, List.any_map, Function.comp_def, hkept] at h
      split at h
      · next hany =>
        obtain ⟨i, hi, hconn⟩ := List.any_eq_true.mp hany
        exact ⟨round, ⟨⟨i, hi, hconn⟩, hbefore⟩, (Option.some.inj h).symm⟩
      · next hnone =>
        refine ih (round + 1) (fun r hr i hi => ?_) h
        rcases Nat.lt_succ_iff_lt_or_eq.mp hr with hr | rfl
        · exact hbefore r hr i hi
        · rw [← Bool.not_eq_true]
          exact fun hconn => hnone (List.any_eq_true.mpr ⟨i, hi, hconn⟩)
  exact hloop rounds 0 (fun r hr => absurd hr (Nat.not_lt_zero r)) (by simpa using h)

/-- Every round makes a client, whatever comes of it. -/
theorem MongoHost.setConnection_spec (round : ℕ) (mi : MongoHost) (hheld : mi.mongoClient.Held) :
    (mi.setConnection round).ping = mi.ping ∧ (mi.setConnection round).mongoClient.Held ∧
      (mi.setConnection round).mongoClient.created = mi.mongoClient.created + 1 := by
  unfold setConnection
  refine ⟨rfl, ?_, ?_⟩ <;> dsimp only <;> split
  · exact hheld.create.mark true
  · exact hheld.create
  · rfl
  · rfl

theorem MongoHost.afterRounds_new (last : ℕ) (mi : MongoHost) :
    let mi' := afterRounds MongoHost.setConnection last { mi with mongoClient := {} }
    mi'.ping = mi.ping ∧ mi'.mongoClient.Held ∧ mi'.mongoClient.created = last + 1 := by
  unfold afterRounds
  induction last + 1 with
  | zero => exact ⟨rfl, .new, rfl⟩
  | succ n ih =>
    obtain ⟨hping, hheld, hcreated⟩ := ih
    obtain ⟨hping', hheld', hcreated'⟩ := setConnection_spec n _ hheld
    rw [List.range_succ, List.foldl_append, List.foldl_cons, List.foldl_nil]
    exact ⟨hping'.trans hping, hheld', by rw [hcreated', hcreated]⟩

/-- A round makes a connection unless it is refused. -/
theorem PostgresHost.setConnection_spec (round : ℕ) (pi : PostgresHost)
    (hheld : pi.conn.Held) :
    (pi.setConnection round).connects = pi.connects ∧
      (pi.setConnection round).probe = pi.probe ∧ (pi.setConnection round).conn.Held ∧
      (pi.setConnection round).conn.created =
        pi.conn.created + if pi.connects round = .refused then 0 else 1 := by
  unfold setConnection
  cases hround : pi.connects round with
  | refused         => exact ⟨rfl, rfl, hheld, rfl⟩
  | autoCommitFails => exact ⟨rfl, rfl, hheld.create, rfl⟩
  | connected       => exact ⟨rfl, rfl, hheld.create.mark true, rfl⟩

/-- The connections that are made to a host up to the last round. -/
def PostgresHost.made (pi : PostgresHost) (last : ℕ) : ℕ :=
  (List.range (last + 1)).countP fun round => pi.connects round ≠ .refused

theorem PostgresHost.afterRounds_new (last : ℕ) (pi : PostgresHost) :
    let pi' := afterRounds PostgresHost.setConnection last { pi with conn := {} }
    pi'.probe = pi.probe ∧ pi'.conn.Held ∧ pi'.conn.created = pi.made last := by
  have hloop : ∀ n (pi' : PostgresHost), pi' = (List.range n).foldl
      (fun i round => setConnection round i) { pi with conn := {} } →
      pi'.connects = pi.connects ∧ pi'.probe = pi.probe ∧ pi'.conn.Held ∧
        pi'.conn.created = (List.range n).countP fun round => pi.connects round ≠ .refused := by
    rintro n pi' rfl
    induction n with
    | zero => exact ⟨rfl, rfl, .new, rfl⟩
    | succ n ih =>
      obtain ⟨hconnects, hprobe, hheld, hcreated⟩ := ih
      obtain ⟨hconnects', hprobe', hheld', hcreated'⟩ := setConnection_spec n _ hheld
      rw [List.range_succ, List.foldl_append, List.foldl_cons, List.foldl_nil,
        List.countP_append]
      refine ⟨hconnects'.trans hconnects, hprobe'.trans hprobe, hheld', ?_⟩
      rw [hcreated', hcreated, hconnects]
      by_cases hround : pi.connects n = .refused <;> simp [hround]
  exact (hloop (last + 1) _ rfl).2

/-! ### The handlers -/

/-- Instances without connections answer like the hosts. -/
theorem FirstRound.of_map {I : Type} {connects : ℕ → I → Bool} {f : I → I} {instances : List I}
    {last : ℕ} (h : FirstRound connects (instances.map f) last)
    (hf : ∀ round i, connects round (f i) = connects round i) :
    FirstRound connects instances last := by
  obtain ⟨⟨_, hmem, hconn⟩, hbefore⟩ := h
  obtain ⟨i, hi, rfl⟩ := List.mem_map.mp hmem
  refine ⟨⟨i, hi, hf last i ▸ hconn⟩, fun round hround i hi => ?_⟩
  rw [← hf]
  exact hbefore round hround _ (List.mem_map_of_mem hi)

/-- The instances of a new handler: a client for every round. -/
theorem newMongoHandler_eq_some {rounds : ℕ} {hosts instances : List MongoHost}
    (h : newMongoHandler rounds hosts = some instances) :
    ∃ last, FirstRound (fun round mi => mi.connects round) hosts last ∧
      instances = hosts.map fun mi =>
        afterRounds MongoHost.setConnection last { mi with mongoClient := {} } := by
  have hanswer : ∀ round round' (mi : MongoHost),
      (mi.setConnection round').connects round = mi.connects round := fun _ _ _ => rfl
  obtain ⟨last, hlast, rfl⟩ := connectToAll_eq_some hanswer h
  exact ⟨last, hlast.of_map fun _ _ => rfl, List.map_map⟩

/-- The instances of a new handler: a connection for every round that is not refused. -/
theorem newPostgresHandler_eq_some {rounds : ℕ} {hosts instances : List PostgresHost}
    (h : newPostgresHandler rounds hosts = some instances) :
    ∃ last, FirstRound (fun round pi => pi.connects round = .connected) hosts last ∧
      instances = hosts.map fun pi =>
        afterRounds PostgresHost.setConnection last { pi with conn := {} } := by
  have hanswer : ∀ round round' (pi : PostgresHost),
      decide ((pi.setConnection round').connects round = .connected) =
        decide (pi.connects round = .connected) := by
    intro round round' pi
    unfold PostgresHost.setConnection
    split <;> rfl
  obtain ⟨last, hlast, rfl⟩ := connectToAll_eq_some hanswer h
  exact ⟨last, hlast.of_map fun _ _ => rfl, List.map_map⟩

/-- A client is closed if it is the only one and its host answers. -/
theorem MongoHost.allClosed_iff (last : ℕ) (mi : MongoHost) :
    (afterRounds MongoHost.setConnection last
      { mi with mongoClient := {} }).checkStatus.close.close.mongoClient.AllClosed ↔
      last = 0 ∧ mi.ping = true := by
  obtain ⟨hping, hheld, hcreated⟩ := mi.afterRounds_new last
  refine (hheld.mark _).allClosed_iff.trans ?_
  rw [Handles.mark_created, Handles.mark_active, hcreated, hping, hheld.current, hcreated]
  simp

/-- So is a connection, if there is one. -/
theorem PostgresHost.allClosed_iff (last : ℕ) (pi : PostgresHost) :
    ((afterRounds PostgresHost.setConnection last
      { pi with conn := {} }).isActive .insertResPartyAge).close.close.conn.AllClosed ↔
      pi.made last = 0 ∨ (pi.made last = 1 ∧ pi.probe .insertResPartyAge = true) := by
  obtain ⟨hprobe, hheld, hcreated⟩ := pi.afterRounds_new last
  refine (hheld.mark _).allClosed_iff.trans ?_
  rw [Handles.mark_created, Handles.mark_active, hcreated, hprobe, hheld.current, hcreated]
  refine or_congr_right (and_congr_right fun hone => ?_)
  simp [hone]

/-! ### The cycle -/

/-- A probe overwrites the flag that an earlier one has set. -/
theorem map_isActive_probeUntilDownloaded (call call' : Probing) (instances : List PostgresHost) :
    (probeUntilDownloaded call instances).map (·.isActive call') =
      instances.map (·.isActive call') := by
  induction instances with
  | nil => rfl
  | cons pi rest ih =>
    rw [probeUntilDownloaded]
    split
    · rfl
    · rw [List.map_cons, ih]
      rfl

/-- So only the last pings and probes count. -/
theorem processInstances_eq (mongo : List MongoHost) (postgres : List PostgresHost) :
    processInstances (mongo, postgres) =
      (mongo.map MongoHost.checkStatus, postgres.map (·.isActive .insertResPartyAge)) := by
  have hlater : ∀ (call call' : Probing) (instances : List PostgresHost),
      (instances.map (·.isActive call)).map (·.isActive call') =
        instances.map (·.isActive call') := by
    intro call call' instances
    rw [List.map_map]
    rfl
  simp only [processInstances, hlater, map_isActive_probeUntilDownloaded]

/-- **When a cycle closes all its connections.**  Everything that `prepareDB` has made is
    closed when it returns exactly if a Mongo host connects in the first round, all Mongo
    hosts answer the ping before they are read, and each Postgres host has been connected to
    at most once before the handler goes on, and answers the last probe if it has. -/
theorem closes_all_iff {rounds : ℕ} {mongo mongo' : List MongoHost}
    {postgres postgres' : List PostgresHost}
    (hreturns : prepareDB rounds mongo postgres = some (mongo', postgres')) :
    ((∀ mi ∈ mongo', mi.mongoClient.AllClosed) ∧ ∀ pi ∈ postgres', pi.conn.AllClosed) ↔
      ((∃ mi ∈ mongo, mi.connects 0 = true) ∧ ∀ mi ∈ mongo, mi.ping = true) ∧
      ∀ last, FirstRound (fun round pi => pi.connects round = .connected) postgres last →
        ∀ pi ∈ postgres, pi.made last = 0 ∨
          (pi.made last = 1 ∧ pi.probe .insertResPartyAge = true) := by
  simp only [prepareDB, Option.bind_eq_bind, Option.bind_eq_some_iff] at hreturns
  obtain ⟨mongo₁, hmongo, postgres₁, hpostgres, hdone⟩ := hreturns
  obtain ⟨lastM, hlastM, rfl⟩ := newMongoHandler_eq_some hmongo
  obtain ⟨last, hlast, rfl⟩ := newPostgresHandler_eq_some hpostgres
  simp only [processInstances_eq, closeHandlers, List.map_map] at hdone
  obtain ⟨rfl, rfl⟩ := Prod.mk.inj (Option.some.inj hdone)
  simp only [List.forall_mem_map, Function.comp, MongoHost.allClosed_iff,
    PostgresHost.allClosed_iff]
  refine and_congr ⟨fun hall => ?_, fun ⟨⟨mi, hmi, hconn⟩, hping⟩ mi' hmi' => ⟨?_, hping mi' hmi'⟩⟩
    ⟨fun hall last' hlast' => ?_, fun hall => hall last hlast⟩
  · -- there is a Mongo host, so its only round is the first one
    obtain ⟨⟨mi, hmi, hconn⟩, -⟩ := hlastM
    obtain ⟨rfl, -⟩ := hall mi hmi
    exact ⟨⟨mi, hmi, hconn⟩, fun mi' hmi' => (hall mi' hmi').2⟩
  · exact hlastM.unique ⟨⟨mi, hmi, hconn⟩, fun round hround => absurd hround (Nat.not_lt_zero _)⟩
  · rw [hlast'.unique hlast]
    exact hall

namespace Sample

/-- Hosts that are always up. -/
def mongoHost : MongoHost where
  connects := fun _ => true
  ping := true

def postgresHost : PostgresHost where
  connects := fun _ => .connected
  probe := fun _ => true

/-- A Postgres host that is always down. -/
def downHost : PostgresHost where
  connects := fun _ => .refused
  probe := fun _ => false

/-- A Mongo host that goes down before it is read. -/
def lostMongoHost : MongoHost := { mongoHost with ping := false }

/-- A Postgres host that goes down while the tables are written. -/
def lostPostgresHost : PostgresHost :=
  { postgresHost with probe := fun call => call ≠ .insertResPartyAge }

end Sample

/-- With hosts that are always up, and one that is down all the time, everything is closed. -/
theorem closes_all_sample :
    ∃ mongo' postgres', prepareDB 1 [Sample.mongoHost] [Sample.postgresHost, Sample.downHost] =
      some (mongo', postgres') ∧
      (∀ mi ∈ mongo', mi.mongoClient.AllClosed) ∧ ∀ pi ∈ postgres', pi.conn.AllClosed := by
  obtain ⟨⟨mongo', postgres'⟩, hreturns⟩ : ∃ handlers, prepareDB 1 [Sample.mongoHost]
      [Sample.postgresHost, Sample.downHost] = some handlers := ⟨_, rfl⟩
  refine ⟨mongo', postgres', hreturns, (closes_all_iff hreturns).mpr
    ⟨⟨⟨_, List.mem_singleton_self _, rfl⟩, by simp [Sample.mongoHost]⟩, fun last hlast => ?_⟩⟩
  -- the first host connects in the first round
  obtain rfl : last = 0 := hlast.unique
    ⟨⟨Sample.postgresHost, List.mem_cons_self .., rfl⟩,
      fun round hround => absurd hround (Nat.not_lt_zero _)⟩
  intro pi hpi
  rcases List.mem_pair.mp hpi with rfl | rfl
  · exact .inr ⟨rfl, rfl⟩
  · exact .inl rfl

/-- A client and a connection to hosts that go down during the cycle stay open. -/
theorem lost_host_leaks :
    ∃ mongo' postgres', prepareDB 1 [Sample.mongoHost, Sample.lostMongoHost]
        [Sample.postgresHost, Sample.lostPostgresHost] = some (mongo', postgres') ∧
      (¬∀ mi ∈ mongo', mi.mongoClient.AllClosed) ∧ ¬∀ pi ∈ postgres', pi.conn.AllClosed :=
  ⟨_, _, rfl, by decide, by decide⟩

end RsoVoting.Aggregator
