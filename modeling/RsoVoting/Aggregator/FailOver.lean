import RsoVoting.Aggregator.RsoAggregator
import RsoVoting.Lib.Runs
import Mathlib.Data.Option.Basic

namespace RsoVoting.Aggregator

open RsoVoting RsoVoting.Runs

/-!
# A master and a slave aggregator

The slave pings the master's host and starts a cycle of its own when there is no answer,
whatever the master is doing at the time.  Both read the same Mongo instances one after the
other and write the same tables row by row, each at its own pace.

* `Process` / `FailOver` — where each process stands in its first cycle, and what they share;
* `FailOver.step` — every way the two can be interleaved with each other and with new votes;
* `FailOver.Rule` / `rule_of_step` — what a step can do;
* `Inv` — whose count a row shows: that of the process which committed it last, or the one
  from before the two processes;
* `Overtaken` / `Stale` — a process is about to commit a row from fewer votes of its class
  than the other one has read, or than the row from before shows;
* `never_decreases_iff` — the published counts never decrease exactly in the runs in which
  that does not happen;
* `slow_master_overwrites` — it can happen.
-/

/-- The two processes, which the constructor tells apart by its argument `_master`. -/
inductive Role where
  | master
  | slave
deriving DecidableEq, Repr

/-- The other process. -/
def Role.other : Role → Role
  | .master => .slave
  | .slave  => .master

/-- There are only two. -/
theorem Role.eq_other {role role' : Role} (h : role' ≠ role) : role' = role.other := by
  revert h
  cases role <;> cases role' <;> simp [Role.other]

/-- Where a process stands in its first cycle. -/
inductive Process where
  /-- Before `init()`. -/
  | waiting
  /-- The dictionaries of the new statistics are filled, and the loop of `getAllData()` is at
      the instance `i`. -/
  | reading (stats : Statistics) (i : ℕ) (aggregList : List VoteMap)
  /-- In `insertStats()`: the rows committed so far, the row of the open transaction, and the
      rows that are left. -/
  | inserting (mapAllData : VoteMap) (committed : List (ResultKey × Int32))
      (executed : Option (ResultKey × Int32)) (left : List (ResultKey × Int32))

namespace Process

/-- The votes that the process has counted. -/
def votes : Process → Option VoteMap
  | .inserting map _ _ _ => some map
  | _                    => none

/-- The rows that the process has committed. -/
def committed : Process → List (ResultKey × Int32)
  | .inserting _ committed _ _ => committed
  | _                          => []

/-- The row of the open transaction. -/
def executed : Process → Option (ResultKey × Int32)
  | .inserting _ _ executed _ => executed
  | _                         => none

end Process

/-- The two processes, with the Mongo instances and the tables that they share. -/
structure FailOver where
  mongo : List MongoInstance
  database : Database
  process : Role → Process := fun _ => .waiting

namespace FailOver

/-- A process moves on. -/
def set (s : FailOver) (role : Role) (p : Process) : FailOver :=
  { s with process := Function.update s.process role p }

/-- `init()`, up to the point where the dictionaries are loaded. -/
def init (s : FailOver) (role : Role) : FailOver :=
  s.set role (.reading (getDictionaries [.connect s.database {}] {}).1 0 [])

/-- What can happen next. -/
inductive Action where
  /-- A document is stored on an instance. -/
  | store (i : ℕ) (document : Document)
  /-- The master's first pass through its loop. -/
  | start
  /-- The slave's ping has exited with `ret`. -/
  | ping (ret : ℤ)
  /-- The loop of `getAllData()` reads the next instance. -/
  | read (role : Role)
  /-- `removeDuplicates(aggregList)` and `calculateAll(mapAllData)`, after the loop. -/
  | calculateAll (role : Role)
  /-- `executeUpdate()` of the next row, which may fail. -/
  | executeUpdate (role : Role) (fails : Bool)
  /-- `commit()`, which may fail as well. -/
  | commit (role : Role) (fails : Bool)
deriving DecidableEq, Repr

/-- The other process holds the lock on the row with this key. -/
def locked (s : FailOver) (role : Role) (k : ResultKey) : Bool :=
  (s.process role.other).executed.any fun row => row.1 = k

/-- One step.  The clock is read by each process for itself. -/
def step (clock : Role → Option String → Clock) (s : FailOver) : Action → Option FailOver
  | .store i document => do
    let mi ← s.mongo[i]?
    return { s with mongo := s.mongo.set i { mi with documents := mi.documents ++ [document] } }
  | .start =>
    match s.process .master with
    | .waiting => some (s.init .master)
    | _        => none
  | .ping ret =>
    match s.process .slave with
    -- the slave sleeps while the master's host answers
    | .waiting => if ret ≠ 0 then some (s.init .slave) else some s
    | _        => none
  | .read role =>
    match s.process role with
    | .reading stats i aggregList => do
      let mi ← s.mongo[i]?
      return s.set role (.reading stats (i + 1) (aggregList ++ mi.read.toList))
    | _ => none
  | .calculateAll role =>
    match s.process role with
    | .reading stats i aggregList =>
      if i = s.mongo.length then
        let map := (MongoHandler.removeDuplicates aggregList
          { mapMongoInstances := s.mongo }).mapAllData
        some (s.set role (.inserting map [] none (stats.calculateAll (clock role) map).rows))
      else none
    | _ => none
  | .executeUpdate role fails =>
    match s.process role with
    | .inserting map committed none (row :: left) =>
      -- a row that fails or is rejected is rolled back and left out
      if fails ∨ s.database.references row.1 = false then
        some (s.set role (.inserting map committed none left))
      else if s.locked role row.1 then none
      else some (s.set role (.inserting map committed (some row) left))
    | _ => none
  | .commit role fails =>
    match s.process role with
    | .inserting map committed (some row) left =>
      if fails then some (s.set role (.inserting map committed none left))
      else some { s.set role (.inserting map (row :: committed) none left) with
        database := s.database.put row.2 row.1 }
    | _ => none

/-! ### What a step can do -/

/-- The steps, with their guards and their effect written out. -/
inductive Rule (clock : Role → Option String → Clock) :
    FailOver → Action → FailOver → Prop
  | store {s i mi document} (hmi : s.mongo[i]? = some mi) :
      Rule clock s (.store i document)
        { s with mongo := s.mongo.set i { mi with documents := mi.documents ++ [document] } }
  | start {s} (hp : s.process .master = .waiting) : Rule clock s .start (s.init .master)
  | ping {s ret} (hp : s.process .slave = .waiting) (hret : ret ≠ 0) :
      Rule clock s (.ping ret) (s.init .slave)
  | sleep {s ret} : Rule clock s (.ping ret) s
  | read {s role stats i aggregList mi} (hp : s.process role = .reading stats i aggregList)
      (hmi : s.mongo[i]? = some mi) :
      Rule clock s (.read role)
        (s.set role (.reading stats (i + 1) (aggregList ++ mi.read.toList)))
  | calculateAll {s role stats aggregList map}
      (hp : s.process role = .reading stats s.mongo.length aggregList)
      (hmap : map = (MongoHandler.removeDuplicates aggregList
        { mapMongoInstances := s.mongo }).mapAllData) :
      Rule clock s (.calculateAll role)
        (s.set role (.inserting map [] none (stats.calculateAll (clock role) map).rows))
  | reject {s role map committed row left fails}
      (hp : s.process role = .inserting map committed none (row :: left)) :
      Rule clock s (.executeUpdate role fails) (s.set role (.inserting map committed none left))
  | execute {s role map committed row left}
      (hp : s.process role = .inserting map committed none (row :: left)) :
      Rule clock s (.executeUpdate role false)
        (s.set role (.inserting map committed (some row) left))
  | rollback {s role map committed row left}
      (hp : s.process role = .inserting map committed (some row) left) :
      Rule clock s (.commit role true) (s.set role (.inserting map committed none left))
  | commit {s role map committed row left}
      (hp : s.process role = .inserting map committed (some row) left) :
      Rule clock s (.commit role false)
        { s.set role (.inserting map (row :: committed) none left) with
          database := s.database.put row.2 row.1 }

/-- **Inversion.**  Every step is one of the rules. -/
theorem rule_of_step {clock : Role → Option String → Clock} {s s' : FailOver} {a : Action}
    (h : s.step clock a = some s') : Rule clock s a s' := by
  cases a with
  | store i document =>
    simp only [step, Option.bind_eq_bind, Option.bind_eq_some_iff] at h
    obtain ⟨mi, hmi, h⟩ := h
    obtain rfl := Option.some.inj h
    exact .store hmi
  | start =>
    simp only [step] at h
    split at h
    · next hp =>
      obtain rfl := Option.some.inj h
      exact .start hp
    · cases h
  | ping ret =>
    simp only [step] at h
    split at h
    · next hp =>
      split at h
      · next hret =>
        obtain rfl := Option.some.inj h
        exact .ping hp hret
      · obtain rfl := Option.some.inj h
        exact .sleep
    · cases h
  | read role =>
    simp only [step] at h
    split at h
    · next hp =>
      obtain ⟨mi, hmi, h⟩ := Option.bind_eq_some_iff.mp h
      obtain rfl := Option.some.inj h
      exact .read hp hmi
    · cases h
  | calculateAll role =>
    simp only [step] at h
    split at h
    · next hp =>
      split at h
      · next hi =>
        obtain rfl := Option.some.inj h
        exact .calculateAll (hi ▸ hp) rfl
      · cases h
    · cases h
  | executeUpdate role fails =>
    simp only [step] at h
    split at h
    · next hp =>
      split at h
      · obtain rfl := Option.some.inj h
        exact .reject hp
      · next hok =>
        obtain rfl : fails = false := by simpa using fun hf => hok (.inl hf)
        split at h
        · cases h
        · obtain rfl := Option.some.inj h
          exact .execute hp
    · cases h
  | commit role fails =>
    simp only [step] at h
    split at h
    · next hp =>
      split at h
      · next hf =>
        obtain rfl := Option.some.inj h
        obtain rfl : fails = true := hf
        exact .rollback hp
      · next hf =>
        obtain rfl := Option.some.inj h
        obtain rfl : fails = false := by simpa using hf
        exact .commit hp
    · cases h

end FailOver

/-! ### What one process knows -/

/-- The keys of the rows are distinct, since each map has one entry for a key. -/
theorem Statistics.nodup_keys_rows (s : Statistics) : (s.rows.map Prod.fst).Nodup := by
  have hkeys : ∀ {K : Type} (m : Table K Int32) {f : K → ResultKey}, Function.Injective f →
      ((Table.toPairs m).map fun e => f e.1).Nodup := by
    intro K m f hf
    have hmap := (Table.nodup_keys_toPairs m).map hf
    rwa [List.map_map] at hmap
  have hpair : ∀ {f : Int32 → Int32 → ResultKey}, Function.Injective2 f →
      Function.Injective fun k : Int32 × Int32 => f k.1 k.2 :=
    fun hf k k' h => Prod.ext (hf h).1 (hf h).2
  simp only [rows, candidateRows, percentRows, educationRows, sexRows, constituencyRows, ageRows,
    List.map_append, List.map_map, Function.comp_def]
  -- rows of different tables have different constructors as keys
  refine List.nodup_append'.mpr ⟨List.nodup_append'.mpr ⟨List.nodup_append'.mpr
    ⟨List.nodup_append'.mpr ⟨List.nodup_append'.mpr ⟨hkeys _ fun _ _ h => ?_,
      hkeys _ fun _ _ h => ?_, ?_⟩, hkeys _ (hpair fun _ _ _ _ h => ?_), ?_⟩,
        hkeys _ (hpair fun _ _ _ _ h => ?_), ?_⟩, hkeys _ (hpair fun _ _ _ _ h => ?_), ?_⟩,
          hkeys _ (hpair fun _ _ _ _ h => ?_), ?_⟩
  all_goals first
    | exact ResultKey.candidate.inj h
    | exact ResultKey.percent.inj h
    | exact ResultKey.education.inj h
    | exact ResultKey.sex.inj h
    | exact ResultKey.constituency.inj h
    | exact ResultKey.age.inj h
    | exact fun k hk hk' => by cases k <;> simp at hk hk'

namespace Process

/-- The rows of the process, committed or not. -/
def rows : Process → List (ResultKey × Int32)
  | .inserting _ committed executed left => committed ++ (executed.toList ++ left)
  | _                                    => []

/-- How many votes of a class the process has counted, in an `int`. -/
def classVotes (d : Dictionary) (clock : Option String → Clock) (p : Process) (k : ResultKey) :
    Int32 :=
  p.votes.elim 0 fun map => Int32.ofNat (map.classCount d clock k)

/-- The process counts the votes it reads, from nothing, with the dictionary `d`. -/
structure Valid (d : Dictionary) (clock : Option String → Clock) (p : Process) : Prop where
  fresh : ∀ stats i aggregList, p = .reading stats i aggregList → stats = { toDictionary := d }
  rows : ∀ row ∈ p.rows, row.2 = p.classVotes d clock row.1
  nodup : (p.rows.map Prod.fst).Nodup

variable {d : Dictionary} {clock : Option String → Clock}

theorem Valid.waiting : Valid d clock .waiting where
  fresh := by rintro stats i aggregList h; cases h
  rows := by simp [Process.rows]
  nodup := by simp [Process.rows]

/-- In the loop nothing is counted yet. -/
theorem Valid.reading (i : ℕ) (aggregList : List VoteMap) :
    Valid d clock (.reading { toDictionary := d } i aggregList) where
  fresh := by rintro stats i aggregList h; cases h; rfl
  rows := by simp [Process.rows]
  nodup := by simp [Process.rows]

/-- The rows are the counts of the votes. -/
theorem Valid.calculateAll (map : VoteMap) :
    Valid d clock (.inserting map [] none
      (Statistics.calculateAll clock map { toDictionary := d }).rows) where
  fresh := by rintro stats i aggregList h; cases h
  rows := by
    intro row hrow
    have hlook := Statistics.mem_rows.mp
      (show (row.1, row.2) ∈ _ by simpa [Process.rows] using hrow)
    rw [Statistics.lookup_calculateAll, Statistics.lookup_new] at hlook
    show row.2 = Int32.ofNat (map.classCount d clock row.1)
    revert hlook
    cases map.classCount d clock row.1 with
    | zero   => simp
    | succ n => simp [counted_succ_none, eq_comm]
  nodup := by simpa [Process.rows] using Statistics.nodup_keys_rows _

/-- Going on with the rows keeps the process valid, whether they are committed or left out. -/
theorem Valid.inserting {map : VoteMap} {committed committed' left left' : List (ResultKey × Int32)}
    {executed executed' : Option (ResultKey × Int32)}
    (h : Valid d clock (.inserting map committed executed left))
    (hrows : (Process.inserting map committed' executed' left').rows.Subperm
      (Process.inserting map committed executed left).rows) :
    Valid d clock (.inserting map committed' executed' left') where
  fresh := by rintro stats i aggregList h; cases h
  rows row hrow := h.rows row (hrows.subset hrow)
  nodup := by
    obtain ⟨l, hperm, hsub⟩ := hrows
    exact (hperm.map Prod.fst).nodup_iff.mp ((hsub.map Prod.fst).nodup h.nodup)

/-- A committed row is the count of the votes that the process has read. -/
theorem Valid.of_committed {p : Process} (h : Valid d clock p) {row : ResultKey × Int32}
    (hrow : row ∈ p.committed) : row.2 = p.classVotes d clock row.1 := by
  cases p with
  | inserting map committed executed left => exact h.rows row (List.mem_append_left _ hrow)
  | _ => simp [committed] at hrow

/-- So is the row of the open transaction, which has not been committed. -/
theorem Valid.of_executed {p : Process} (h : Valid d clock p) {row : ResultKey × Int32}
    (hrow : row ∈ p.executed) :
    row.2 = p.classVotes d clock row.1 ∧ row.1 ∉ p.committed.map Prod.fst := by
  cases p with
  | inserting map committed executed left =>
    obtain rfl : executed = some row := hrow
    refine ⟨h.rows row (List.mem_append_right _ (List.mem_cons_self ..)), ?_⟩
    have hnd := h.nodup
    rw [Process.rows, List.map_append] at hnd
    intro hmem
    exact List.disjoint_of_nodup_append hnd hmem (by simp)
  | _ => simp [executed] at hrow

end Process

/-! ### What holds of both processes -/

namespace FailOver

/-- What holds in a run that began in `s₀`: a row that nobody has committed is the one of the
    start, and any other row is the last one that a process has committed. -/
structure Inv (clock : Role → Option String → Clock) (s₀ s : FailOver) : Prop where
  tables : s.database.toDictTables = s₀.database.toDictTables
  valid : ∀ role, (s.process role).Valid s₀.database.dictionary (clock role)
  untouched : ∀ k, (∀ role, k ∉ (s.process role).committed.map Prod.fst) →
    s.database.lookup k = s₀.database.lookup k
  latest : ∀ role, ∀ k ∈ (s.process role).committed.map Prod.fst,
    ∃ role' v, (k, v) ∈ (s.process role').committed ∧ s.database.lookup k = some v

theorem Inv.start {clock : Role → Option String → Clock} {s₀ : FailOver}
    (hnew : ∀ role, s₀.process role = .waiting) : Inv clock s₀ s₀ where
  tables := rfl
  valid role := by
    rw [hnew role]
    exact .waiting
  untouched _ _ := rfl
  latest role k h := by simp [hnew role, Process.committed] at h

variable {clock : Role → Option String → Clock} {s₀ s s' : FailOver} {a : Action}

@[simp] theorem set_database (role : Role) (p : Process) :
    (s.set role p).database = s.database := rfl

theorem set_process (role role' : Role) (p : Process) :
    (s.set role p).process role' = if role' = role then p else s.process role' :=
  Function.update_apply s.process role p role'

/-- A process that moves on is valid again, and the other one is where it was. -/
theorem Inv.valid_set (h : Inv clock s₀ s) {role : Role} {p : Process}
    (hvalid : p.Valid s₀.database.dictionary (clock role)) (role' : Role) :
    ((s.set role p).process role').Valid s₀.database.dictionary (clock role') := by
  rw [set_process]
  split
  · next hr => rwa [hr]
  · exact h.valid role'

/-- A step of a process that commits nothing. -/
theorem Inv.set (h : Inv clock s₀ s) {role : Role} {p : Process}
    (hvalid : p.Valid s₀.database.dictionary (clock role))
    (hcommitted : p.committed = (s.process role).committed) : Inv clock s₀ (s.set role p) := by
  have hsame : ∀ role', ((s.set role p).process role').committed =
      (s.process role').committed := by
    intro role'
    rw [set_process]
    split
    · next hr => rw [hr, hcommitted]
    · rfl
  refine ⟨h.tables, h.valid_set hvalid, ?_, ?_⟩
  · simpa only [hsame, set_database] using h.untouched
  · simpa only [hsame, set_database] using h.latest

/-- A commit publishes the row of the process. -/
theorem Inv.commit (h : Inv clock s₀ s) {role : Role} {map : VoteMap}
    {committed left : List (ResultKey × Int32)} {row : ResultKey × Int32}
    (hp : s.process role = .inserting map committed (some row) left) :
    Inv clock s₀ { s.set role (.inserting map (row :: committed) none left) with
      database := s.database.put row.2 row.1 } := by
  have hvalid := h.valid role
  rw [hp] at hvalid
  have hperm : (Process.inserting map (row :: committed) none left).rows.Perm
      (Process.inserting map committed (some row) left).rows := by
    have hmiddle : (committed ++ row :: left).Perm (row :: (committed ++ left)) :=
      List.perm_middle
    exact hmiddle.symm
  have hmem : ∀ role' e, e ∈ ((s.set role (.inserting map (row :: committed) none left)).process
      role').committed ↔ (role' = role ∧ e = row) ∨ e ∈ (s.process role').committed := by
    intro role' e
    rw [set_process]
    by_cases hr : role' = role
    · subst hr
      simp [Process.committed, hp]
    · simp [hr]
  refine ⟨(Database.put_toDictTables _ _ _).trans h.tables,
    h.valid_set (hvalid.inserting hperm.subperm), fun k hk => ?_, fun role' k hk => ?_⟩
  · -- the row that is written is not untouched
    have hne : k ≠ row.1 := by
      rintro rfl
      exact hk role (List.mem_map_of_mem ((hmem role row).mpr (.inl ⟨rfl, rfl⟩)))
    rw [Database.lookup_put, if_neg hne]
    refine h.untouched k fun role' hmem' => hk role' ?_
    obtain ⟨e, he, rfl⟩ := List.mem_map.mp hmem'
    exact List.mem_map_of_mem ((hmem role' e).mpr (.inr he))
  · by_cases hkey : k = row.1
    · -- the row of the key is the one just written
      refine ⟨role, row.2, (hmem role _).mpr (.inl ⟨rfl, Prod.ext hkey rfl⟩), ?_⟩
      rw [Database.lookup_put, if_pos hkey]
    · obtain ⟨e, he, rfl⟩ := List.mem_map.mp hk
      rcases (hmem role' e).mp he with ⟨-, rfl⟩ | he
      · exact absurd rfl hkey
      · obtain ⟨role'', v, hv, hlook⟩ := h.latest role' e.1 (List.mem_map_of_mem he)
        refine ⟨role'', v, (hmem role'' _).mpr (.inr hv), ?_⟩
        rwa [Database.lookup_put, if_neg hkey]

/-- The dictionary that a process loads is the one of the start. -/
theorem Inv.init_eq (h : Inv clock s₀ s) (role : Role) :
    s.init role = s.set role (.reading { toDictionary := s₀.database.dictionary } 0 []) := by
  have hload : getDictionaries (connectAll [(s.database, {})]) {} =
      ({ toDictionary := s.database.dictionary }, connectAll [(s.database, {})]) :=
    getDictionaries_of_no_fault (by simp) rfl (.inl rfl)
  have hdict : s.database.dictionary = s₀.database.dictionary := by rw [h.tables]
  rw [FailOver.init, show ([.connect s.database {}] : List PostgresInstance) =
    connectAll [(s.database, {})] from rfl, hload, hdict]

/-- **Step lemma.** -/
theorem Inv.step (h : Inv clock s₀ s) (hr : Rule clock s a s') : Inv clock s₀ s' := by
  cases hr with
  | store => exact ⟨h.tables, h.valid, h.untouched, h.latest⟩
  | start hp | ping hp =>
    rw [h.init_eq]
    exact h.set (.reading 0 []) (by rw [hp]; rfl)
  | sleep => exact h
  | @read role stats i aggregList mi hp =>
    obtain rfl := (h.valid role).fresh stats i aggregList hp
    exact h.set (.reading _ _) (by rw [hp]; rfl)
  | @calculateAll role stats aggregList map hp =>
    obtain rfl := (h.valid role).fresh stats _ aggregList hp
    exact h.set (.calculateAll map) (by rw [hp]; rfl)
  | @reject role map committed row left fails hp =>
    have hvalid := h.valid role
    rw [hp] at hvalid
    refine h.set (hvalid.inserting ?_) (by rw [hp]; rfl)
    exact ((List.sublist_cons_self row left).append_left committed).subperm
  | @execute role map committed row left hp =>
    have hvalid := h.valid role
    rw [hp] at hvalid
    exact h.set (hvalid.inserting (List.Subperm.refl _)) (by rw [hp]; rfl)
  | @rollback role map committed row left hp =>
    have hvalid := h.valid role
    rw [hp] at hvalid
    refine h.set (hvalid.inserting ?_) (by rw [hp]; rfl)
    exact ((List.sublist_cons_self row left).append_left committed).subperm
  | commit hp => exact h.commit hp

end FailOver

/-! ### When the published counts decrease -/

/-- No published count is lower than before, and no row disappears. -/
def Database.Grows (db db' : Database) : Prop :=
  ∀ k v, db.lookup k = some v → ∃ v', db'.lookup k = some v' ∧ v ≤ v'

/-- Writing a row lowers at most the count that was there. -/
theorem Database.grows_put_iff {db : Database} {k : ResultKey} {v : Int32} :
    db.Grows (db.put v k) ↔ ∀ u, db.lookup k = some u → u ≤ v := by
  constructor
  · intro h u hu
    obtain ⟨v', hv', hle⟩ := h k u hu
    rw [Database.lookup_put, if_pos rfl] at hv'
    exact Option.some.inj hv' ▸ hle
  · intro h k' u hu
    rw [Database.lookup_put]
    split
    · next hkey => exact ⟨v, rfl, h u (hkey ▸ hu)⟩
    · exact ⟨u, hu, Int32.le_refl u⟩

namespace FailOver

/-- The row that the process is about to commit has been committed by the other one, which
    has read more votes of its class. -/
def Overtaken (clock : Role → Option String → Clock) (s : FailOver) (role : Role) : Prop :=
  ∃ row ∈ (s.process role).executed,
    row.1 ∈ (s.process role.other).committed.map Prod.fst ∧
    (s.process role).classVotes s.database.dictionary (clock role) row.1 <
      (s.process role.other).classVotes s.database.dictionary (clock role.other) row.1

/-- The row that the process is about to commit is still the one of the start, which shows
    more votes of its class than the process has read. -/
def Stale (clock : Role → Option String → Clock) (s₀ s : FailOver) (role : Role) : Prop :=
  ∃ row ∈ (s.process role).executed,
    row.1 ∉ (s.process role.other).committed.map Prod.fst ∧
    ∃ v ∈ s₀.database.lookup row.1,
      (s.process role).classVotes s.database.dictionary (clock role) row.1 < v

/-- No commit is overtaken, and none replaces a stale row. -/
def InOrder (clock : Role → Option String → Clock) (s₀ s : FailOver) : Action → Prop
  | .commit role false => ¬Overtaken clock s role ∧ ¬Stale clock s₀ s role
  | _                  => True

instance (clock : Role → Option String → Clock) (s : FailOver) (role : Role) :
    Decidable (Overtaken clock s role) :=
  inferInstanceAs (Decidable (∃ row ∈ _, _ ∧ _))

instance (clock : Role → Option String → Clock) (s₀ s : FailOver) (role : Role) :
    Decidable (Stale clock s₀ s role) :=
  inferInstanceAs (Decidable (∃ row ∈ _, _ ∧ ∃ v ∈ _, _))

instance (clock : Role → Option String → Clock) (s₀ s : FailOver) :
    DecidablePred (InOrder clock s₀ s)
  | .commit _ false => inferInstanceAs (Decidable (_ ∧ _))
  | .commit _ true | .store _ _ | .start | .ping _ | .read _ | .calculateAll _
  | .executeUpdate _ _ => .isTrue trivial

variable {clock : Role → Option String → Clock} {s₀ s s' : FailOver} {a : Action}

section Commit

variable {role : Role} {row : ResultKey × Int32}

/-- What a commit overwrites, if the other process has committed the row: its count. -/
theorem Inv.lookup_of_committed (h : Inv clock s₀ s) (hrow : row ∈ (s.process role).executed)
    (hother : row.1 ∈ (s.process role.other).committed.map Prod.fst) :
    s.database.lookup row.1 = some ((s.process role.other).classVotes s₀.database.dictionary
      (clock role.other) row.1) := by
  obtain ⟨role', v, hv, hlook⟩ := h.latest role.other row.1 hother
  -- the process itself has not committed the row before
  obtain rfl : role' = role.other := Role.eq_other fun heq =>
    ((h.valid role).of_executed hrow).2 (List.mem_map.mpr ⟨(row.1, v), heq ▸ hv, rfl⟩)
  rw [hlook]
  exact congrArg some ((h.valid role.other).of_committed hv)

/-- Otherwise the row is still the one of the start. -/
theorem Inv.lookup_of_not_committed (h : Inv clock s₀ s)
    (hrow : row ∈ (s.process role).executed)
    (hother : row.1 ∉ (s.process role.other).committed.map Prod.fst) :
    s.database.lookup row.1 = s₀.database.lookup row.1 := by
  refine h.untouched row.1 fun role' hmem => ?_
  by_cases hr : role' = role
  · subst hr
    exact ((h.valid role').of_executed hrow).2 hmem
  · exact hother (Role.eq_other hr ▸ hmem)

/-- **A commit lowers a count exactly if it has been overtaken or replaces a stale row.** -/
theorem Inv.grows_commit_iff (h : Inv clock s₀ s) (hrow : row ∈ (s.process role).executed) :
    s.database.Grows (s.database.put row.2 row.1) ↔
      ¬Overtaken clock s role ∧ ¬Stale clock s₀ s role := by
  have hdict : s.database.dictionary = s₀.database.dictionary := by rw [h.tables]
  have hvotes := ((h.valid role).of_executed hrow).1
  -- both conditions are about this row
  have hunique : ∀ row' ∈ (s.process role).executed, row' = row := fun row' hrow' =>
    Option.some.inj (hrow'.symm.trans hrow)
  rw [Database.grows_put_iff, hvotes]
  by_cases hother : row.1 ∈ (s.process role.other).committed.map Prod.fst
  · have hstale : ¬Stale clock s₀ s role := by
      rintro ⟨row', hrow', hnot, -⟩
      exact hnot (hunique row' hrow' ▸ hother)
    rw [h.lookup_of_committed hrow hother, and_iff_left hstale]
    constructor
    · rintro hle ⟨row', hrow', -, hlt⟩
      obtain rfl := hunique row' hrow'
      rw [hdict] at hlt
      exact Int32.not_lt.mpr (hle _ rfl) hlt
    · rintro hnot u hu
      obtain rfl := Option.some.inj hu
      refine Int32.not_lt.mp fun hlt => hnot ⟨row, hrow, hother, ?_⟩
      rwa [hdict]
  · have hover : ¬Overtaken clock s role := by
      rintro ⟨row', hrow', hmem, -⟩
      exact hother (hunique row' hrow' ▸ hmem)
    rw [h.lookup_of_not_committed hrow hother, and_iff_right hover]
    constructor
    · rintro hle ⟨row', hrow', -, v, hv, hlt⟩
      obtain rfl := hunique row' hrow'
      rw [hdict] at hlt
      exact Int32.not_lt.mpr (hle v hv) hlt
    · rintro hnot u hu
      refine Int32.not_lt.mp fun hlt => hnot ⟨row, hrow, hother, u, hu, ?_⟩
      rwa [hdict]

end Commit

/-- A step lowers a count exactly if it is such a commit. -/
theorem Inv.grows_iff (h : Inv clock s₀ s) (hr : Rule clock s a s') :
    s.database.Grows s'.database ↔ InOrder clock s₀ s a := by
  have hsame : s.database.Grows s.database := fun k v hk => ⟨v, hk, Int32.le_refl v⟩
  cases hr with
  | commit hp => exact h.grows_commit_iff (by rw [hp]; rfl)
  | _ => exact ⟨fun _ => trivial, fun _ => hsame⟩

/-- The published counts never decrease at a step. -/
def NeverDecreases (clock : Role → Option String → Clock) (s : FailOver) (a : Action) : Prop :=
  ∀ s', s.step clock a = some s' → s.database.Grows s'.database

/-- **When fail-over publishes older counts over newer ones.**  In every run of the two
    processes, whatever is stored, published before, rejected or read at whatever time, the
    published counts never decrease exactly if no process commits a row of which the other
    one has committed more votes, or the tables of the start show more, than it has read. -/
theorem never_decreases_iff {as : List Action} {t : FailOver}
    (hnew : ∀ role, s₀.process role = .waiting)
    (hrun : run (FailOver.step clock) s₀ as = some t) :
    Along (FailOver.step clock) (NeverDecreases clock) s₀ as ↔
      Along (FailOver.step clock) (InOrder clock s₀) s₀ as := by
  refine along_congr (I := Inv clock s₀) (fun _ _ _ h hs => h.step (rule_of_step hs)) ?_
    (.start hnew) hrun
  intro s a s' _ h hs _
  rw [← h.grows_iff (rule_of_step hs)]
  exact ⟨fun hall => hall s' hs, fun hg s'' hs'' => Option.some.inj (hs.symm.trans hs'') ▸ hg⟩

end FailOver

namespace Sample

/-- One vote on one instance, and nothing published. -/
def failOver : FailOver where
  mongo := [{ documents := [vote "a" 1 1] }]
  database := database

/-- The master reads one vote.  A second one is stored, the slave's ping fails, and it
    publishes two votes for candidate 1; then the master goes on with its row. -/
def slowMaster : List FailOver.Action :=
  [.start, .read .master, .store 0 (vote "b" 1 1), .ping 1, .read .slave, .calculateAll .slave,
    .executeUpdate .slave false, .commit .slave false, .calculateAll .master,
    .executeUpdate .master false]

/-- One vote on two instances, and an old row for a candidate without votes. -/
def oldRow : FailOver where
  mongo := [{ documents := [vote "a" 1 1] }, { documents := [vote "a" 1 1] }]
  database := database.put 5 (.candidate 9)

/-- A second vote is stored while the master reads; the slave begins when the master is
    through with its first row. -/
def quickMaster : List FailOver.Action :=
  [.ping 0, .start, .read .master, .store 1 (vote "b" 1 1), .read .master,
    .calculateAll .master, .executeUpdate .master false, .commit .master false,
    .store 0 (vote "b" 1 1), .ping 1, .read .slave, .read .slave, .calculateAll .slave,
    .executeUpdate .slave false, .commit .slave false]

end Sample

open FailOver

/-- The slow master publishes one vote over two. -/
theorem slow_master_overwrites :
    ∃ t, run (FailOver.step fun _ => Sample.clock) Sample.failOver
        (Sample.slowMaster ++ [.commit .master false]) = some t ∧
      ¬Along (FailOver.step fun _ => Sample.clock) (NeverDecreases fun _ => Sample.clock)
        Sample.failOver (Sample.slowMaster ++ [.commit .master false]) := by
  let row (t : FailOver) : Option Int32 := t.database.lookup (.candidate 1)
  have hbefore : (run (FailOver.step fun _ => Sample.clock) Sample.failOver
      Sample.slowMaster).map row = some (some 2) := by decide
  have hafter : (run (FailOver.step fun _ => Sample.clock) Sample.failOver
      (Sample.slowMaster ++ [.commit .master false])).map row = some (some 1) := by decide
  obtain ⟨t, hrun, ht⟩ := Option.map_eq_some_iff.mp hafter
  refine ⟨t, hrun, fun h => ?_⟩
  obtain ⟨s, hs, hlast⟩ := run_append_eq_some.mp hrun
  rw [hs, Option.map_some, Option.some.injEq] at hbefore
  obtain ⟨t', hcommit, hnil⟩ := run_cons_eq_some.mp hlast
  obtain rfl : t' = t := Option.some.inj hnil
  -- the last commit takes the row from 2 to 1
  obtain ⟨v, hv, hle⟩ := (along_append h hs).1 t' hcommit (.candidate 1) 2 hbefore
  obtain rfl : (1 : Int32) = v := Option.some.inj (ht.symm.trans hv)
  exact absurd hle (by decide)

/-- With a quick master the counts never decrease; the old row stays as it is. -/
theorem never_decreases_sample :
    Along (FailOver.step fun _ => Sample.clock) (NeverDecreases fun _ => Sample.clock)
      Sample.oldRow Sample.quickMaster := by
  obtain ⟨t, ht⟩ : ∃ t, run (FailOver.step fun _ => Sample.clock) Sample.oldRow
      Sample.quickMaster = some t := Option.isSome_iff_exists.mp (by decide)
  exact (never_decreases_iff (fun _ => rfl) ht).mpr (by decide)

end RsoVoting.Aggregator
