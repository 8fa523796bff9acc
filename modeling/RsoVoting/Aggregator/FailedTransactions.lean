import RsoVoting.Aggregator.RsoAggregator
import RsoVoting.Lib.Runs

namespace RsoVoting.Aggregator

open RsoVoting Runs

/-!
# Connections in a failed transaction

The handler uses one connection for each instance, without autocommit.  A row that fails is
rolled back, but the `select` of a dictionary and the `select 1` of `isActive()` are not: if
the server rejects one of them, the transaction has failed, every later statement fails with
it, and the instance is inactive from then on.

* `Call` — a call of `getDictData` or of one of the six `insertRes*`, with what the server
  does to its statements;
* `failed_run` — the connections that a call leaves in a failed transaction;
* `stays_usable_iff` — when a sequence of calls leaves an instance usable throughout;
* `run_settled` — no call leaves a row that is neither committed nor rolled back;
* `run_passCalls` — a pass of the aggregator is a sequence of calls;
* `insertStats_exact` — so a row that is rejected affects only itself;
* `failed_select_disables` — but one rejected `select`, and nothing is written any more.
-/

/-! ### Calls -/

/-- The dictionaries that `getDictData` is called with. -/
inductive DictName where
  | dCandidates
  | dAge
deriving DecidableEq, Repr

/-- The tables that the `insertRes*` methods write. -/
inductive ResultTable where
  | candidates
  | percent
  | education
  | sex
  | constituency
  | age
deriving DecidableEq, Repr

/-- What may go wrong with the `select` of a dictionary. -/
def DictName.fault : DictName → Behaviour → QueryFault
  | .dCandidates => Behaviour.selectCandidates
  | .dAge        => Behaviour.selectAge

/-- The instances after `getDictData(dictName, …)`. -/
def DictName.getDictData (stats : Statistics) (instances : List PostgresInstance) :
    DictName → List PostgresInstance
  | .dCandidates => (Aggregator.getDictData (fun db => db.selectCandidates)
      Behaviour.selectCandidates instances stats.dictCandidatesMap).2.1
  | .dAge => (Aggregator.getDictData (fun db => db.selectAge)
      Behaviour.selectAge instances stats.ageGroupMap).2.1

/-- The instances after the `insertRes*` method of a table. -/
def ResultTable.insertRes (stats : Statistics) (instances : List PostgresInstance) :
    ResultTable → List PostgresInstance
  | .candidates   => insertResPartyCandidates stats instances
  | .percent      => insertResPartyPercent stats instances
  | .education    => insertResPartyEducation stats instances
  | .sex          => insertResPartySex stats instances
  | .constituency => insertResPartyConstituency stats instances
  | .age          => insertResPartyAge stats instances

/-- What is called.  The server may reject the `select 1` by which a call asks an instance
    whether it is active; in `getDictData` this has the same effect as a rejected `select` of
    the dictionary, for an insert it is chosen here. -/
inductive Operation where
  | getDictData (dictName : DictName)
  | insertRes (table : ResultTable) (probeFails : ℕ → Bool)

/-- A call, with the maps at that time and the behaviour of every instance during it. -/
structure Call where
  operation : Operation
  stats : Statistics := {}
  behaviour : ℕ → Behaviour := fun _ => {}

namespace PostgresInstance

/-- A statement that is not rolled back is rejected. -/
def reject (pi : PostgresInstance) : PostgresInstance :=
  { pi with conn := { pi.conn with failed := true } }

/-- A `select 1` that the server may reject. -/
def probe (pi : PostgresInstance) (fails : Bool) : PostgresInstance :=
  if fails && pi.behaviour.reachable then pi.reject else pi

/-- `getDictData` stops at this instance. -/
def delivers (pi : PostgresInstance) (fault : Behaviour → QueryFault) : Bool :=
  pi.isActive && fault pi.behaviour = .none

end PostgresInstance

namespace Call

/-- The instances with their behaviours during the call. -/
def begin (call : Call) (instances : List PostgresInstance) : List PostgresInstance :=
  instances.mapIdx fun i pi => { pi with behaviour := call.behaviour i }

/-- The instances after the call. -/
def run (call : Call) (instances : List PostgresInstance) : List PostgresInstance :=
  match call.operation with
  | .getDictData dictName => dictName.getDictData call.stats (call.begin instances)
  | .insertRes table probeFails => table.insertRes call.stats
      ((call.begin instances).mapIdx fun i pi => pi.probe (probeFails i))

/-- Whether the call executes statements on the `i`-th instance: it is up and, for a
    dictionary, no instance before it has delivered. -/
def asks (call : Call) (instances : List PostgresInstance) (i : ℕ) : Bool :=
  (call.behaviour i).reachable && match call.operation with
    | .getDictData dictName =>
      !((call.begin instances).take i).any fun pi => pi.delivers dictName.fault
    | .insertRes .. => true

/-- Whether the server rejects a `select 1` or a `select` of a dictionary there. -/
def rejected (call : Call) (i : ℕ) : Bool :=
  match call.operation with
  | .getDictData dictName => dictName.fault (call.behaviour i) = .statement
  | .insertRes _ probeFails => probeFails i

end Call

/-- The calls of the handler, as the steps of a run. -/
def PostgresHandler.step (instances : List PostgresInstance) (call : Call) :
    Option (List PostgresInstance) :=
  some (call.run instances)

/-! ### What a call does to a connection -/

/-- The rows that an `insertRes*` method writes. -/
def ResultTable.rows (stats : Statistics) : ResultTable → List (ResultKey × Int32)
  | .candidates   => stats.candidateRows
  | .percent      => stats.percentRows
  | .education    => stats.educationRows
  | .sex          => stats.sexRows
  | .constituency => stats.constituencyRows
  | .age          => stats.ageRows

/-- The six methods differ in their rows only. -/
theorem ResultTable.insertRes_eq (stats : Statistics) (instances : List PostgresInstance)
    (table : ResultTable) :
    table.insertRes stats instances = Aggregator.insertRes (table.rows stats) instances := by
  cases table <;> rfl

/-- `getDictData` changes a connection only if the server rejects the `select`, on an
    instance before which none has delivered. -/
theorem getElem?_getDictData {V : Type} [DecidableEq V] (query : Database → List (Int32 × V))
    (fault : Behaviour → QueryFault) (instances : List PostgresInstance) (map : Table Int32 V)
    (i : ℕ) :
    (getDictData query fault instances map).2.1[i]? = instances[i]?.map fun pi =>
      if (pi.isActive && fault pi.behaviour = .statement) &&
          !(instances.take i).any (fun pi => pi.delivers fault) then pi.reject else pi := by
  induction instances generalizing i map with
  | nil => simp [getDictData]
  | cons pi rest ih =>
    rw [getDictData]
    cases hactive : pi.isActive with
    | false => cases i <;> simp [hactive, ih, PostgresInstance.delivers]
    | true =>
      cases hfault : fault pi.behaviour with
      | none =>
        -- the loop ends here
        cases i <;> simp [hactive, hfault, PostgresInstance.delivers]
      | statement =>
        cases i <;> simp [hactive, hfault, ih, PostgresInstance.delivers, PostgresInstance.reject]
      | reading n =>
        cases i <;> simp [hactive, hfault, ih, PostgresInstance.delivers]

namespace PostgresInstance

/-- Nothing has been written that is neither committed nor rolled back. -/
def Settled (pi : PostgresInstance) : Prop := pi.conn.current = pi.conn.committed

theorem Settled.reject {pi : PostgresInstance} (h : pi.Settled) : pi.reject.Settled := h

theorem Settled.probe {pi : PostgresInstance} (h : pi.Settled) (fails : Bool) :
    (pi.probe fails).Settled := by
  unfold PostgresInstance.probe
  split
  · exact h.reject
  · exact h

theorem Settled.insertRows {pi : PostgresInstance} (h : pi.Settled)
    (rows : List (ResultKey × Int32)) : (pi.insertRows rows).Settled := by
  unfold PostgresInstance.insertRows
  split
  · unfold Settled
    rcases pi.behaviour.foldl_insertRow rows pi.conn with hsame | ⟨db, hidle⟩
    · exact (congrArg Connection.current hsame).trans (h.trans
        (congrArg Connection.committed hsame).symm)
    · simp only [hidle, Connection.idle]
  · exact h

end PostgresInstance

/-- For either dictionary. -/
theorem DictName.getElem?_getDictData (dictName : DictName) (stats : Statistics)
    (instances : List PostgresInstance) (i : ℕ) :
    (dictName.getDictData stats instances)[i]? = instances[i]?.map fun pi =>
      if (pi.isActive && dictName.fault pi.behaviour = .statement) &&
          !(instances.take i).any (fun pi => pi.delivers dictName.fault) then pi.reject
      else pi := by
  cases dictName <;> exact Aggregator.getElem?_getDictData _ _ _ _ _

namespace Call

theorem getElem?_begin (call : Call) (instances : List PostgresInstance) (i : ℕ) :
    (call.begin instances)[i]? =
      instances[i]?.map fun pi => { pi with behaviour := call.behaviour i } :=
  List.getElem?_mapIdx

/-- **The failed transactions after a call**: those from before, and those in which a
    statement has been rejected that the call does not roll back. -/
theorem failed_run (call : Call) (instances : List PostgresInstance) (i : ℕ) :
    (call.run instances)[i]?.map (fun pi => pi.conn.failed) =
      instances[i]?.map fun pi =>
        pi.conn.failed || (call.asks instances i && call.rejected i) := by
  unfold run asks rejected
  cases hop : call.operation with
  | getDictData dictName =>
    simp only [dictName.getElem?_getDictData, getElem?_begin, Option.map_map]
    refine congrArg (Option.map · _) (funext fun pi => ?_)
    -- what the first instances deliver is the same on both sides
    generalize ((call.begin instances).take i).any _ = delivered
    cases hreach : (call.behaviour i).reachable <;> cases hfailed : pi.conn.failed <;>
      by_cases hfault : dictName.fault (call.behaviour i) = .statement <;> cases delivered <;>
      simp [PostgresInstance.isActive, PostgresInstance.reject, hreach, hfailed, hfault]
  | insertRes table probeFails =>
    simp only [table.insertRes_eq, Aggregator.insertRes, List.getElem?_map, List.getElem?_mapIdx,
      getElem?_begin, Option.map_map]
    refine congrArg (Option.map · _) (funext fun pi => ?_)
    simp only [Function.comp, PostgresInstance.failed_insertRows]
    cases hreach : (call.behaviour i).reachable <;> cases hprobe : probeFails i <;>
      simp [PostgresInstance.probe, PostgresInstance.reject, hreach]

end Call

/-! ### Sequences of calls -/

/-- The instance has no failed transaction, so a `select 1` that the server answers says that
    it is active. -/
def Usable (i : ℕ) (instances : List PostgresInstance) : Prop :=
  ∃ pi, instances[i]? = some pi ∧ pi.conn.failed = false ∧
    ∀ behaviour : Behaviour, behaviour.reachable = true →
      PostgresInstance.isActive { pi with behaviour } = true

/-- The server rejects no `select 1` and no `select` of a dictionary by which the call asks
    the instance. -/
def Answers (i : ℕ) (instances : List PostgresInstance) (call : Call) : Prop :=
  call.asks instances i = true → call.rejected i = false

theorem usable_iff {i : ℕ} {instances : List PostgresInstance} :
    Usable i instances ↔ instances[i]?.map (fun pi => pi.conn.failed) = some false := by
  unfold Usable PostgresInstance.isActive
  cases instances[i]? <;> simp_all

/-- One call. -/
theorem usable_run_iff {i : ℕ} {instances : List PostgresInstance} (h : Usable i instances)
    (call : Call) : Usable i (call.run instances) ↔ Answers i instances call := by
  obtain ⟨pi, hpi, hok, -⟩ := h
  rw [usable_iff, call.failed_run, hpi, Option.map_some, hok]
  unfold Answers
  cases call.asks instances i <;> cases call.rejected i <;> simp

/-- **An instance stays usable throughout a sequence of calls** exactly if the server rejects
    none of the `select 1` and of the `select`s of a dictionary by which they ask it.  The
    rows that it rejects do not matter. -/
theorem stays_usable_iff (instances : List PostgresInstance) (i : ℕ) (h : Usable i instances)
    (calls : List Call) :
    (∀ calls', calls' <+: calls → ∀ instances',
        Runs.run PostgresHandler.step instances calls' = some instances' →
        Usable i instances') ↔
      Along PostgresHandler.step (Answers i) instances calls :=
  throughout_iff_along (fun _ call h => ⟨_, rfl, usable_run_iff h call⟩) h

/-! ### Nothing is left open -/

/-- No call leaves a row that is neither committed nor rolled back. -/
theorem Call.settled_run (call : Call) {instances : List PostgresInstance}
    (h : ∀ pi ∈ instances, pi.Settled) : ∀ pi ∈ call.run instances, pi.Settled := by
  have hbegin : ∀ {i : ℕ} {pi : PostgresInstance}, (call.begin instances)[i]? = some pi →
      pi.Settled := by
    intro i pi hpi
    rw [call.getElem?_begin] at hpi
    obtain ⟨pi₀, hpi₀, rfl⟩ := Option.map_eq_some_iff.mp hpi
    exact h pi₀ (List.mem_of_getElem? hpi₀)
  intro pi hpi
  obtain ⟨i, hi⟩ := List.getElem?_of_mem hpi
  unfold run at hi
  cases hop : call.operation with
  | getDictData dictName =>
    simp only [hop, dictName.getElem?_getDictData] at hi
    obtain ⟨pi₀, hpi₀, rfl⟩ := Option.map_eq_some_iff.mp hi
    split
    · exact (hbegin hpi₀).reject
    · exact hbegin hpi₀
  | insertRes table probeFails =>
    simp only [hop, table.insertRes_eq, Aggregator.insertRes, List.getElem?_map,
      List.getElem?_mapIdx, Option.map_map] at hi
    obtain ⟨pi₀, hpi₀, rfl⟩ := Option.map_eq_some_iff.mp hi
    exact ((hbegin hpi₀).probe _).insertRows _

/-- So whatever goes wrong, after any sequence of calls on new connections the tables are
    what has been committed. -/
theorem run_settled {databases : List (Database × Behaviour)} {calls : List Call}
    {instances : List PostgresInstance}
    (hrun : Runs.run PostgresHandler.step (connectAll databases) calls = some instances) :
    ∀ pi ∈ instances, pi.Settled := by
  refine run_invariant (I := fun s => ∀ pi ∈ s, PostgresInstance.Settled pi)
    (fun s call s' h hs => Option.some.inj hs ▸ call.settled_run h) (fun pi hpi => ?_) hrun
  obtain ⟨p, -, rfl⟩ := List.mem_map.mp hpi
  rfl

/-! ### The calls of a pass -/

/-- The instances behave as it says. -/
def Behaves (behaviour : ℕ → Behaviour) (instances : List PostgresInstance) : Prop :=
  ∀ i pi, instances[i]? = some pi → pi.behaviour = behaviour i

section Behaves

variable {behaviour : ℕ → Behaviour} {instances : List PostgresInstance} {call : Call}

theorem Behaves.begin_eq (h : Behaves call.behaviour instances) :
    call.begin instances = instances := by
  refine List.ext_getElem? fun i => ?_
  rw [call.getElem?_begin]
  cases hpi : instances[i]? with
  | none => rfl
  | some pi => rw [Option.map_some, ← h i pi hpi]

/-- While they behave so, a dictionary is loaded as `getDictData` does. -/
theorem Behaves.getDictData_eq (h : Behaves behaviour instances) (dictName : DictName)
    (stats : Statistics) :
    Call.run { operation := .getDictData dictName, stats, behaviour } instances =
      dictName.getDictData stats instances := by
  unfold Call.run
  rw [Behaves.begin_eq h]

/-- And the rows are written as by the `insertRes*` method if no `select 1` is rejected. -/
theorem Behaves.insertRes_eq (h : Behaves behaviour instances) (table : ResultTable)
    (stats : Statistics) :
    Call.run { operation := .insertRes table fun _ => false, stats, behaviour } instances =
      table.insertRes stats instances := by
  unfold Call.run
  dsimp only
  rw [Behaves.begin_eq h]
  have hprobe : (instances.mapIdx fun _ pi => pi.probe false) = instances := by
    refine List.ext_getElem? fun i => ?_
    rw [List.getElem?_mapIdx]
    cases instances[i]? <;> rfl
  rw [hprobe]

theorem Behaves.getDictData (h : Behaves behaviour instances) (dictName : DictName)
    (stats : Statistics) : Behaves behaviour (dictName.getDictData stats instances) := by
  intro i pi hpi
  rw [dictName.getElem?_getDictData] at hpi
  obtain ⟨pi₀, hpi₀, rfl⟩ := Option.map_eq_some_iff.mp hpi
  split
  · exact h i pi₀ hpi₀
  · exact h i pi₀ hpi₀

theorem Behaves.insertRes (h : Behaves behaviour instances) (table : ResultTable)
    (stats : Statistics) : Behaves behaviour (table.insertRes stats instances) := by
  intro i pi hpi
  rw [table.insertRes_eq, Aggregator.insertRes, List.getElem?_map] at hpi
  obtain ⟨pi₀, hpi₀, rfl⟩ := Option.map_eq_some_iff.mp hpi
  rw [PostgresInstance.behaviour_insertRows]
  exact h i pi₀ hpi₀

end Behaves

/-- The calls of `getDictionaries()`. -/
def dictionaryCalls (behaviour : ℕ → Behaviour) (stats : Statistics) : List Call :=
  [DictName.dCandidates, DictName.dAge].map fun dictName =>
    { operation := .getDictData dictName, stats, behaviour }

/-- The calls of `insertStats()`. -/
def insertCalls (behaviour : ℕ → Behaviour) (stats : Statistics) : List Call :=
  [ResultTable.candidates, ResultTable.percent, ResultTable.education, ResultTable.sex,
    ResultTable.constituency, ResultTable.age].map fun table =>
      { operation := .insertRes table fun _ => false, stats, behaviour }

/-- The calls of a pass: the dictionaries are loaded with the statistics from before, and the
    rows of the new ones are written. -/
def passCalls (behaviour : ℕ → Behaviour) (stats stats' : Statistics) : List Call :=
  dictionaryCalls behaviour stats ++ insertCalls behaviour stats'

section Behaves

variable {behaviour : ℕ → Behaviour} {instances : List PostgresInstance}

theorem Behaves.getDictionaries (h : Behaves behaviour instances) (stats : Statistics) :
    Behaves behaviour (getDictionaries instances stats).2 :=
  (h.getDictData .dCandidates stats).getDictData .dAge stats

/-- Calls of one kind, one after the other. -/
theorem Behaves.run_calls (h : Behaves behaviour instances) {K : Type} {call : K → Call}
    {f : List PostgresInstance → K → List PostgresInstance}
    (hcall : ∀ k instances, Behaves behaviour instances →
      (call k).run instances = f instances k ∧ Behaves behaviour (f instances k))
    (ks : List K) :
    Runs.run PostgresHandler.step instances (ks.map call) = some (ks.foldl f instances) := by
  induction ks generalizing instances with
  | nil => rfl
  | cons k ks ih =>
    obtain ⟨hrun, hbehaves⟩ := hcall k instances h
    rw [List.map_cons, run_cons, PostgresHandler.step, hrun, Option.bind_some, ih hbehaves,
      List.foldl_cons]

theorem Behaves.run_dictionaryCalls (h : Behaves behaviour instances) (stats : Statistics) :
    Runs.run PostgresHandler.step instances (dictionaryCalls behaviour stats) =
      some (Aggregator.getDictionaries instances stats).2 :=
  h.run_calls (f := DictName.getDictData stats)
    (fun dictName _ h => ⟨h.getDictData_eq dictName stats, h.getDictData dictName stats⟩) _

theorem Behaves.run_insertCalls (h : Behaves behaviour instances) (stats : Statistics) :
    Runs.run PostgresHandler.step instances (insertCalls behaviour stats) =
      some (insertStats stats instances) :=
  h.run_calls (f := ResultTable.insertRes stats)
    (fun table _ h => ⟨h.insertRes_eq table stats, h.insertRes table stats⟩) _

/-- **A pass is a sequence of calls.** -/
theorem run_passCalls (h : Behaves behaviour instances) (stats stats' : Statistics) :
    Runs.run PostgresHandler.step instances (passCalls behaviour stats stats') =
      some (insertStats stats' (getDictionaries instances stats).2) :=
  run_append_eq_some.mpr
    ⟨_, h.run_dictionaryCalls stats, (h.getDictionaries stats).run_insertCalls stats'⟩

end Behaves

/-! ### Rows that are rejected -/

namespace PostgresInstance

/-- An active instance is one that has been connected to and has the tables it shows. -/
theorem Settled.eq_connect {pi : PostgresInstance} (h : pi.Settled) (hactive : pi.isActive = true) :
    pi = .connect pi.conn.committed pi.behaviour := by
  have hok : pi.conn.failed = false := by simpa using (Bool.and_eq_true_iff.mp hactive).2
  obtain ⟨⟨committed, current, failed⟩, behaviour⟩ := pi
  obtain rfl : current = committed := h
  obtain rfl : failed = false := hok
  rfl

end PostgresInstance

/-- **A rejected row affects only itself.**  After `insertStats` the rows of an active
    instance are those from before, overridden by the entries of the maps whose update and
    commit both succeed; an instance that is not active is left as it is. -/
theorem insertStats_exact (stats : Statistics) (instances : List PostgresInstance)
    (hstart : ∀ pi ∈ instances, pi.Settled) (i : ℕ) :
    (insertStats stats instances)[i]?.isSome = instances[i]?.isSome ∧
    ∀ pi pi', instances[i]? = some pi → (insertStats stats instances)[i]? = some pi' →
      pi'.Settled ∧ pi'.isActive = pi.isActive ∧
      pi'.conn.committed.toDictTables = pi.conn.committed.toDictTables ∧
      (pi.isActive = false → pi' = pi) ∧
      (pi.isActive = true → ∀ k, pi'.conn.committed.lookup k =
        if pi.behaviour.accepts pi.conn.committed.toDictTables k then
          (stats.lookup k).or (pi.conn.committed.lookup k)
        else pi.conn.committed.lookup k) := by
  rw [insertStats_eq, insertRes, List.getElem?_map]
  refine ⟨Option.isSome_map .., fun pi pi' hpi hpi' => ?_⟩
  rw [hpi, Option.map_some] at hpi'
  obtain rfl := Option.some.inj hpi'
  have hsettled := hstart pi (List.mem_of_getElem? hpi)
  refine ⟨hsettled.insertRows _, pi.isActive_insertRows _, ?_⟩
  cases hactive : pi.isActive with
  | false =>
    have hsame : pi.insertRows stats.rows = pi := by simp [PostgresInstance.insertRows, hactive]
    rw [hsame]
    exact ⟨rfl, fun _ => rfl, nofun⟩
  | true =>
    -- its transaction is closed, so each row is a transaction of its own
    have hstore := insertRows_connect stats.rows pi.conn.committed pi.behaviour
    rw [← hsettled.eq_connect hactive] at hstore
    rw [hstore]
    exact ⟨pi.behaviour.store_toDictTables _ _, nofun,
      fun _ => pi.behaviour.lookup_store stats _⟩

/-- A vote for a candidate that exists, two for one that does not, and counts of the party, of
    which the server does not commit the one by age group. -/
def Sample.mixed : Statistics where
  resPartyCandidatesMap := AList.insert 7 2 (AList.insert 1 1 ∅)
  resPartyPercentMap := AList.insert 1 4 ∅
  resPartyAgeMap := AList.insert (1, 4) 3 ∅

def Sample.uncommitted : Behaviour where
  upsert k := if k = .age 1 4 then .commit else .none

theorem insertStats_exact_sample :
    ∃ pi' : PostgresInstance,
      (insertStats Sample.mixed (connectAll [(Sample.database, Sample.uncommitted)]))[0]? =
        some pi' ∧
      pi'.conn.committed.lookup (.candidate 1) = some 1 ∧
      pi'.conn.committed.lookup (.candidate 7) = none ∧
      pi'.conn.committed.lookup (.percent 1) = some 4 ∧
      pi'.conn.committed.lookup (.age 1 4) = none := by
  have hsettled : ∀ pi ∈ connectAll [(Sample.database, Sample.uncommitted)], pi.Settled :=
    List.forall_mem_singleton.mpr rfl
  obtain ⟨hsome, hexact⟩ := insertStats_exact Sample.mixed _ hsettled 0
  obtain ⟨pi', hpi'⟩ := Option.isSome_iff_exists.mp (hsome.trans rfl)
  obtain ⟨-, -, -, -, hrows⟩ := hexact _ pi' rfl hpi'
  have hlookup := hrows rfl
  exact ⟨pi', hpi', (hlookup _).trans (by decide), (hlookup _).trans (by decide),
    (hlookup _).trans (by decide), (hlookup _).trans (by decide)⟩

/-! ### A rejected `select` -/

/-- A call does nothing on a connection whose transaction has failed. -/
theorem Call.conn_run_of_failed (call : Call) {instances : List PostgresInstance} {i : ℕ}
    {conn : Connection Database} (hconn : instances[i]?.map (fun pi => pi.conn) = some conn)
    (hfailed : conn.failed = true) :
    (call.run instances)[i]?.map (fun pi => pi.conn) = some conn := by
  obtain ⟨pi, hpi, rfl⟩ := Option.map_eq_some_iff.mp hconn
  have hinactive : ∀ behaviour : Behaviour,
      PostgresInstance.isActive { pi with behaviour } = false := by
    simp [PostgresInstance.isActive, hfailed]
  unfold run
  cases hop : call.operation with
  | getDictData dictName =>
    simp [dictName.getElem?_getDictData, call.getElem?_begin, hpi, hinactive]
  | insertRes table probeFails =>
    simp only [table.insertRes_eq, Aggregator.insertRes, List.getElem?_map, List.getElem?_mapIdx,
      call.getElem?_begin, hpi, Option.map_some]
    -- a second failure changes nothing
    have hreject : PostgresInstance.probe { pi with behaviour := call.behaviour i }
        (probeFails i) = { pi with behaviour := call.behaviour i } := by
      unfold PostgresInstance.probe PostgresInstance.reject
      split
      · rw [← hfailed]
      · rfl
    rw [hreject, PostgresInstance.insertRows, hinactive]
    rfl

/-- So nothing is written on it as long as the handler lives. -/
theorem conn_of_failed {instances instances' : List PostgresInstance} {i : ℕ}
    {conn : Connection Database} (hconn : instances[i]?.map (fun pi => pi.conn) = some conn)
    (hfailed : conn.failed = true) {calls : List Call}
    (hrun : Runs.run PostgresHandler.step instances calls = some instances') :
    instances'[i]?.map (fun pi => pi.conn) = some conn :=
  run_invariant (I := fun s : List PostgresInstance => s[i]?.map (fun pi => pi.conn) = some conn)
    (fun _ call _ h hs => Option.some.inj hs ▸ call.conn_run_of_failed h hfailed) hconn hrun

/-- Loading a dictionary changes no table. -/
theorem DictName.committed_getDictData (dictName : DictName) (stats : Statistics)
    (instances : List PostgresInstance) (i : ℕ) :
    (dictName.getDictData stats instances)[i]?.map (fun pi => pi.conn.committed) =
      instances[i]?.map fun pi => pi.conn.committed := by
  rw [dictName.getElem?_getDictData, Option.map_map]
  refine congrArg (Option.map · _) (funext fun pi => ?_)
  rw [Function.comp]
  split <;> rfl

namespace RsoAggregator

variable (agg : RsoAggregator) (pass : Pass)

/-- The instances as a pass connects to them. -/
def connected : List PostgresInstance :=
  connectAll (agg.databases.mapIdx fun i db => (db, pass.postgres i))

theorem behaves_connected : Behaves pass.postgres (agg.connected pass) := by
  intro i pi hpi
  rw [connected, connectAll, List.getElem?_map, List.getElem?_mapIdx, Option.map_map] at hpi
  obtain ⟨db, -, rfl⟩ := Option.map_eq_some_iff.mp hpi
  rfl

/-- What a pass leaves are the tables after its calls. -/
theorem databases_init :
    ∃ instances, Runs.run PostgresHandler.step (agg.connected pass)
        (passCalls pass.postgres agg.stats (agg.init pass).stats) = some instances ∧
      (agg.init pass).databases = instances.map fun pi => pi.conn.committed :=
  ⟨_, run_passCalls (agg.behaves_connected pass) agg.stats (agg.init pass).stats, rfl⟩

/-- **An instance of which a dictionary cannot be loaded** because the server rejects the
    `select` gets no results in the whole pass. -/
theorem init_of_failed {i : ℕ} {conn : Connection Database}
    (hconn : (getDictionaries (agg.connected pass) agg.stats).2[i]?.map (fun pi => pi.conn) =
      some conn)
    (hfailed : conn.failed = true) : (agg.init pass).databases[i]? = agg.databases[i]? := by
  have htable : ∀ {instances : List PostgresInstance},
      instances[i]?.map (fun pi => pi.conn) = some conn →
      instances[i]?.map (fun pi => pi.conn.committed) = some conn.committed := by
    intro instances h
    obtain ⟨pi, hpi, rfl⟩ := Option.map_eq_some_iff.mp h
    rw [hpi, Option.map_some]
  -- no table is changed after the dictionaries are loaded, and none has been before
  have hwritten : (insertStats (agg.init pass).stats
      (getDictionaries (agg.connected pass) agg.stats).2)[i]?.map (fun pi => pi.conn) =
      some conn :=
    conn_of_failed hconn hfailed
      (((agg.behaves_connected pass).getDictionaries agg.stats).run_insertCalls _)
  have hread : (getDictionaries (agg.connected pass) agg.stats).2[i]?.map
      (fun pi => pi.conn.committed) = agg.databases[i]? := by
    refine (DictName.dAge.committed_getDictData agg.stats _ i).trans
      ((DictName.dCandidates.committed_getDictData agg.stats (agg.connected pass) i).trans ?_)
    rw [connected, connectAll, List.getElem?_map, List.getElem?_mapIdx, Option.map_map,
      Option.map_map]
    exact Option.map_id'
  rw [htable hconn] at hread
  rw [← hread, ← htable hwritten]
  exact List.getElem?_map

end RsoAggregator

namespace Sample

/-- The dictionary of the candidates is loaded, and a vote for a candidate is written. -/
def calls : List Call :=
  [{ operation := .getDictData .dCandidates },
    { operation := .insertRes .candidates fun _ => false,
      stats := { resPartyCandidatesMap := AList.insert 1 1 ∅ } }]

/-- The server rejects the `select` of the candidates. -/
def rejectedSelect : Call :=
  { operation := .getDictData .dCandidates,
    behaviour := fun _ => { selectCandidates := .statement } }

theorem usable_new : Usable 0 (connectAll [(database, {})]) :=
  usable_iff.mpr rfl

end Sample

/-- The instance is usable at the end of these calls. -/
theorem stays_usable_sample :
    ∃ instances, Runs.run PostgresHandler.step (connectAll [(Sample.database, {})])
      Sample.calls = some instances ∧ Usable 0 instances :=
  ⟨_, rfl, (stays_usable_iff _ 0 Sample.usable_new Sample.calls).mpr
    ⟨fun _ => rfl, fun _ => rfl, trivial⟩ Sample.calls (List.prefix_refl _) _ rfl⟩

/-- **A rejected `select` disables an instance**: it is not usable, and no later call writes
    to it, although its server answers again. -/
theorem failed_select_disables :
    Usable 0 (connectAll [(Sample.database, {})]) ∧
    (∃ instances, Runs.run PostgresHandler.step (connectAll [(Sample.database, {})])
        [Sample.rejectedSelect] = some instances ∧ ¬Usable 0 instances) ∧
    ∀ calls instances, Runs.run PostgresHandler.step (connectAll [(Sample.database, {})])
        (Sample.rejectedSelect :: calls) = some instances →
      instances[0]?.map (fun pi => pi.conn) =
        some { committed := Sample.database, current := Sample.database, failed := true } := by
  refine ⟨Sample.usable_new, ⟨Sample.rejectedSelect.run (connectAll [(Sample.database, {})]), rfl,
    fun h => ?_⟩, fun calls instances hrun => ?_⟩
  · exact absurd (usable_iff.mp h) (by simp [Call.failed_run]; decide)
  · obtain ⟨s, hs, hrest⟩ := run_cons_eq_some.mp hrun
    obtain rfl := Option.some.inj hs
    exact conn_of_failed rfl rfl hrest

end RsoVoting.Aggregator
