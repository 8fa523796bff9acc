import RsoVoting.Aggregator.Statistics
import RsoVoting.Lib.Transaction

namespace RsoVoting.Aggregator

open RsoVoting

/-!
# The results database

The dictionaries are loaded from the first Postgres instance that delivers them.  The
statistics are written to every active instance, row by row, each row in a transaction of
its own that the foreign keys of the schema may reject.

* `Database` — the tables of an instance, with the foreign key of the candidates as a field;
* `Database.references` / `upsert` — the foreign keys of the result tables, and
  `insert … on conflict do update`;
* `PostgresInstance` — a connection, and how the instance behaves during a pass;
* `getDictionaries` / `insertStats` — the two things the handler does;
* `insertStats_eq` — the six tables are written as if they were one;
* `insertStats_connectAll` / `lookup_store` — what `insertStats` makes of every instance:
  each row that is accepted has the value of the statistics, everything else is unchanged.
-/

/-! ### Tables -/

/-- The dictionary tables `d_*`, each by its primary key. -/
structure DictTables where
  dParties : List Int32
  dCandidates : Table Int32 (Option Int32)
  dAge : Table Int32 (Int32 × Int32)
  dConstituencies : List Int32
  dEducation : List Int32
  dSex : List Int32
  /-- `fk_party_id`: a candidate's party is null or exists. -/
  fkPartyId : ∀ c p, dCandidates.lookup c = some (some p) → p ∈ dParties

/-- The dictionary tables and the result tables `res_*`. -/
structure Database extends DictTables where
  resPartyCandidates : Table Int32 Int32 := ∅
  resPartyPercent : Table Int32 Int32 := ∅
  resPartyAge : Table (Int32 × Int32) Int32 := ∅
  resPartyEducation : Table (Int32 × Int32) Int32 := ∅
  resPartySex : Table (Int32 × Int32) Int32 := ∅
  resPartyConstituency : Table (Int32 × Int32) Int32 := ∅

/-- Whether the ids of a row exist in the dictionary tables it refers to. -/
def DictTables.references (db : DictTables) : ResultKey → Bool
  | .candidate c      => (db.dCandidates.lookup c).isSome
  | .percent p        => p ∈ db.dParties
  | .age p a          => p ∈ db.dParties ∧ (db.dAge.lookup a).isSome
  | .education p e    => p ∈ db.dParties ∧ e ∈ db.dEducation
  | .sex p s          => p ∈ db.dParties ∧ s ∈ db.dSex
  | .constituency p c => p ∈ db.dParties ∧ c ∈ db.dConstituencies

/-- `select candidate_id, party_id from d_candidates`, as the driver's `getInt` reads it:
    a null is a 0. -/
def DictTables.selectCandidates (db : DictTables) : List (Int32 × Int32) :=
  (Table.toPairs db.dCandidates).map fun row => (row.1, row.2.getD 0)

/-- The select from `d_age`: ids and bounds. -/
def DictTables.selectAge (db : DictTables) : List (Int32 × (Int32 × Int32)) :=
  Table.toPairs db.dAge

namespace Database

/-- `votes_sum` of a row in whichever result table has it. -/
def lookup (db : Database) : ResultKey → Option Int32
  | .candidate c      => db.resPartyCandidates.lookup c
  | .percent p        => db.resPartyPercent.lookup p
  | .age p a          => db.resPartyAge.lookup (p, a)
  | .education p e    => db.resPartyEducation.lookup (p, e)
  | .sex p s          => db.resPartySex.lookup (p, s)
  | .constituency p c => db.resPartyConstituency.lookup (p, c)

/-- The row is inserted, or its `votes_sum` replaced. -/
def put (db : Database) (votesSum : Int32) : ResultKey → Database
  | .candidate c      =>
    { db with resPartyCandidates := Table.put db.resPartyCandidates c votesSum }
  | .percent p        =>
    { db with resPartyPercent := Table.put db.resPartyPercent p votesSum }
  | .age p a          =>
    { db with resPartyAge := Table.put db.resPartyAge (p, a) votesSum }
  | .education p e    =>
    { db with resPartyEducation := Table.put db.resPartyEducation (p, e) votesSum }
  | .sex p s          =>
    { db with resPartySex := Table.put db.resPartySex (p, s) votesSum }
  | .constituency p c =>
    { db with resPartyConstituency := Table.put db.resPartyConstituency (p, c) votesSum }

/-- `insert … on conflict (…) do update set votes_sum = excluded.votes_sum`, `none` if a
    foreign key rejects the row. -/
def upsert (row : ResultKey × Int32) (db : Database) : Option Database :=
  if db.references row.1 then some (db.put row.2 row.1) else none

theorem put_toDictTables (db : Database) (v : Int32) (k : ResultKey) :
    (db.put v k).toDictTables = db.toDictTables := by
  cases k <;> rfl

theorem lookup_put (db : Database) (v : Int32) (k k' : ResultKey) :
    (db.put v k).lookup k' = if k' = k then some v else db.lookup k' := by
  cases k <;> cases k' <;> simp [put, lookup, Table.lookup_put]

end Database

/-! ### Instances -/

/-- What may go wrong with a query: the server rejects the statement, or the driver throws
    when it has read some of the rows. -/
inductive QueryFault where
  | none
  | statement
  | reading (rows : ℕ)
deriving DecidableEq, Repr

/-- How an instance behaves during a pass; by default nothing goes wrong. -/
structure Behaviour where
  reachable : Bool := true
  selectCandidates : QueryFault := .none
  selectAge : QueryFault := .none
  upsert : ResultKey → Connection.Fault := fun _ => .none

/-- A Postgres instance with the connection the handler has made. -/
structure PostgresInstance where
  conn : Connection Database
  behaviour : Behaviour := {}

namespace PostgresInstance

/-- `isActive()`: `select 1` goes through. -/
def isActive (pi : PostgresInstance) : Bool := pi.behaviour.reachable && !pi.conn.failed

/-- A new connection. -/
def connect (db : Database) (behaviour : Behaviour) : PostgresInstance :=
  { conn := .idle db, behaviour }

end PostgresInstance

/-! ### Loading the dictionaries -/

/-- `getDictData(dictName, columns)` with the map it fills, the instances and its result. -/
def getDictData {V : Type} [DecidableEq V] (query : Database → List (Int32 × V))
    (fault : Behaviour → QueryFault) :
    List PostgresInstance → Table Int32 V → Table Int32 V × List PostgresInstance × Bool
  | [], map         => (map, [], false)
  | pi :: rest, map =>
    let next (pi : PostgresInstance) (map : Table Int32 V) :=
      let (map, rest, dataDownloaded) := getDictData query fault rest map
      (map, pi :: rest, dataDownloaded)
    if pi.isActive then
      match fault pi.behaviour with
      -- `dataDownloaded` ends the loop
      | .none      => (Table.insertAll map (query pi.conn.current), pi :: rest, true)
      -- the exception is caught, but the transaction of the statement stays failed
      | .statement => next { pi with conn := { pi.conn with failed := true } } map
      | .reading n => next pi (Table.insertAll map ((query pi.conn.current).take n))
    else next pi map

/-- `getDictionaries()`. -/
def getDictionaries (instances : List PostgresInstance) (stats : Statistics) :
    Statistics × List PostgresInstance :=
  let (dictCandidatesMap, instances, _) :=
    getDictData (fun db => db.selectCandidates) Behaviour.selectCandidates instances
      stats.dictCandidatesMap
  let (ageGroupMap, instances, _) :=
    getDictData (fun db => db.selectAge) Behaviour.selectAge instances stats.ageGroupMap
  ({ stats with dictCandidatesMap, ageGroupMap }, instances)

/-! ### Writing the statistics -/

/-- The body of the loop over the entries: upsert the row and commit, roll back if either
    fails. -/
def Behaviour.insertRow (behaviour : Behaviour) (conn : Connection Database)
    (row : ResultKey × Int32) : Connection Database :=
  conn.attempt (behaviour.upsert row.1) (Database.upsert row)

/-- The body of the loop over the instances. -/
def PostgresInstance.insertRows (rows : List (ResultKey × Int32)) (pi : PostgresInstance) :
    PostgresInstance :=
  if pi.isActive then { pi with conn := rows.foldl pi.behaviour.insertRow pi.conn } else pi

/-- What the six `insertRes*` methods do with the rows of their map. -/
def insertRes (rows : List (ResultKey × Int32)) (instances : List PostgresInstance) :
    List PostgresInstance :=
  instances.map (PostgresInstance.insertRows rows)

namespace Statistics

def candidateRows (s : Statistics) : List (ResultKey × Int32) :=
  (Table.toPairs s.resPartyCandidatesMap).map fun e => (.candidate e.1, e.2)

def percentRows (s : Statistics) : List (ResultKey × Int32) :=
  (Table.toPairs s.resPartyPercentMap).map fun e => (.percent e.1, e.2)

def educationRows (s : Statistics) : List (ResultKey × Int32) :=
  (Table.toPairs s.resPartyEducationMap).map fun e => (.education e.1.1 e.1.2, e.2)

def sexRows (s : Statistics) : List (ResultKey × Int32) :=
  (Table.toPairs s.resPartySexMap).map fun e => (.sex e.1.1 e.1.2, e.2)

def constituencyRows (s : Statistics) : List (ResultKey × Int32) :=
  (Table.toPairs s.resPartyConstituencyMap).map fun e => (.constituency e.1.1 e.1.2, e.2)

def ageRows (s : Statistics) : List (ResultKey × Int32) :=
  (Table.toPairs s.resPartyAgeMap).map fun e => (.age e.1.1 e.1.2, e.2)

/-- All rows, in the order in which they are written. -/
def rows (s : Statistics) : List (ResultKey × Int32) :=
  s.candidateRows ++ s.percentRows ++ s.educationRows ++ s.sexRows ++ s.constituencyRows ++
    s.ageRows

/-- The rows are the entries of the six maps. -/
theorem mem_rows {s : Statistics} {k : ResultKey} {v : Int32} :
    (k, v) ∈ s.rows ↔ s.lookup k = some v := by
  cases k <;>
    simp [rows, candidateRows, percentRows, educationRows, sexRows, constituencyRows, ageRows,
      lookup, ← Table.mem_toPairs]

end Statistics

/-- `insertResPartyCandidates()`. -/
def insertResPartyCandidates (stats : Statistics) : List PostgresInstance → List PostgresInstance :=
  insertRes stats.candidateRows

/-- `insertResPartyPercent()`. -/
def insertResPartyPercent (stats : Statistics) : List PostgresInstance → List PostgresInstance :=
  insertRes stats.percentRows

/-- `insertResPartyEducation()`. -/
def insertResPartyEducation (stats : Statistics) : List PostgresInstance → List PostgresInstance :=
  insertRes stats.educationRows

/-- `insertResPartySex()`. -/
def insertResPartySex (stats : Statistics) : List PostgresInstance → List PostgresInstance :=
  insertRes stats.sexRows

/-- `insertResPartyConstituency()`. -/
def insertResPartyConstituency (stats : Statistics) :
    List PostgresInstance → List PostgresInstance :=
  insertRes stats.constituencyRows

/-- `insertResPartyAge()`. -/
def insertResPartyAge (stats : Statistics) : List PostgresInstance → List PostgresInstance :=
  insertRes stats.ageRows

/-- `insertStats()`. -/
def insertStats (stats : Statistics) (instances : List PostgresInstance) :
    List PostgresInstance :=
  let instances := insertResPartyCandidates stats instances
  let instances := insertResPartyPercent stats instances
  let instances := insertResPartyEducation stats instances
  let instances := insertResPartySex stats instances
  let instances := insertResPartyConstituency stats instances
  insertResPartyAge stats instances

/-! ### What is written -/

namespace Behaviour

/-- The tables after one row. -/
def written (behaviour : Behaviour) (db : Database) (row : ResultKey × Int32) : Database :=
  Connection.effect (behaviour.upsert row.1) (Database.upsert row) db

/-- The tables after rows, on an instance with no open transaction. -/
def store (behaviour : Behaviour) (rows : List (ResultKey × Int32)) (db : Database) : Database :=
  if behaviour.reachable then rows.foldl behaviour.written db else db

/-- Whether a row with this key gets through. -/
def accepts (behaviour : Behaviour) (db : DictTables) (k : ResultKey) : Bool :=
  behaviour.reachable && behaviour.upsert k = .none && db.references k

theorem written_eq (behaviour : Behaviour) (db : Database) (row : ResultKey × Int32) :
    behaviour.written db row =
      if behaviour.upsert row.1 = .none ∧ db.references row.1 = true then db.put row.2 row.1
      else db := by
  unfold written Connection.effect Database.upsert
  by_cases hf : behaviour.upsert row.1 = .none <;>
    by_cases hr : db.references row.1 = true <;> simp [hf, hr]

theorem written_toDictTables (behaviour : Behaviour) (db : Database) (row : ResultKey × Int32) :
    (behaviour.written db row).toDictTables = db.toDictTables := by
  rw [written_eq]
  split
  · exact db.put_toDictTables _ _
  · rfl

theorem foldl_written_toDictTables (behaviour : Behaviour) (rows : List (ResultKey × Int32))
    (db : Database) : (rows.foldl behaviour.written db).toDictTables = db.toDictTables := by
  induction rows generalizing db with
  | nil => rfl
  | cons row rows ih => rw [List.foldl_cons, ih, written_toDictTables]

/-- The dictionary tables are only read. -/
theorem store_toDictTables (behaviour : Behaviour) (rows : List (ResultKey × Int32))
    (db : Database) : (behaviour.store rows db).toDictTables = db.toDictTables := by
  unfold store
  split
  · exact behaviour.foldl_written_toDictTables rows db
  · rfl

/-- One row changes at most the row of its key. -/
theorem lookup_written (behaviour : Behaviour) (db : Database) (row : ResultKey × Int32)
    (k : ResultKey) :
    (behaviour.written db row).lookup k =
      if (behaviour.upsert k = .none ∧ db.references k = true) ∧ k = row.1 then some row.2
      else db.lookup k := by
  rw [written_eq]
  -- only the row's own key is written
  by_cases hk : k = row.1
  · subst hk
    split
    · next h => rw [Database.lookup_put, if_pos rfl, if_pos ⟨h, rfl⟩]
    · next h => rw [if_neg fun h' => h h'.1]
  · simp only [hk, and_false, if_false]
    split
    · rw [Database.lookup_put, if_neg hk]
    · rfl

/-- If all rows with a key have one value, the row of the key ends up with it, as long as
    there is one and it is accepted. -/
private theorem lookup_foldl_written (behaviour : Behaviour) {rows : List (ResultKey × Int32)}
    {k : ResultKey} {o : Option Int32} (hrows : ∀ v, (k, v) ∈ rows → o = some v)
    (db : Database) :
    (rows.foldl behaviour.written db).lookup k =
      if (behaviour.upsert k = .none ∧ db.references k = true) ∧ k ∈ rows.map Prod.fst then o
      else db.lookup k := by
  induction rows generalizing db with
  | nil => simp
  | cons row rows ih =>
    rw [List.foldl_cons, ih fun v hv => hrows v (List.mem_cons_of_mem _ hv),
      written_toDictTables, lookup_written, List.map_cons]
    -- writing changes no dictionary, so all rows with this key are accepted or none is
    by_cases hacc : behaviour.upsert k = .none ∧ db.references k = true
    · simp only [hacc, and_self, true_and, List.mem_cons]
      by_cases hmem : k ∈ rows.map Prod.fst
      · simp [hmem]
      · by_cases hk : k = row.1
        · simp [hk, hrows row.2 (by simp [hk])]
        · simp [hmem, hk]
    · simp only [hacc, false_and, if_false]

/-- **Writing the statistics**: a row that is accepted gets the value of the statistics if
    they have one; every other row is left as it is. -/
theorem lookup_store (behaviour : Behaviour) (stats : Statistics) (db : Database)
    (k : ResultKey) :
    (behaviour.store stats.rows db).lookup k =
      if behaviour.accepts db.toDictTables k then (stats.lookup k).or (db.lookup k)
      else db.lookup k := by
  have hkeys : k ∈ stats.rows.map Prod.fst ↔ (stats.lookup k).isSome = true := by
    simp [Statistics.mem_rows, Option.isSome_iff_exists]
  unfold store accepts
  cases behaviour.reachable with
  | false => simp
  | true =>
    -- the map has one value for a key, so the order of its entries does not matter
    rw [if_pos rfl, lookup_foldl_written behaviour fun v => Statistics.mem_rows.mp]
    simp only [hkeys, Bool.true_and, Bool.and_eq_true, decide_eq_true_eq]
    by_cases hacc : behaviour.upsert k = .none ∧ db.references k = true
    · cases hk : stats.lookup k <;> simp [hacc]
    · simp [hacc]

end Behaviour

/-- Rows leave the connection alone or without an open transaction. -/
theorem Behaviour.foldl_insertRow (behaviour : Behaviour) (rows : List (ResultKey × Int32))
    (conn : Connection Database) :
    rows.foldl behaviour.insertRow conn = conn ∨
      ∃ db, rows.foldl behaviour.insertRow conn = .idle db := by
  induction rows generalizing conn with
  | nil => exact .inl rfl
  | cons row rows ih =>
    rw [List.foldl_cons]
    refine .inr ?_
    rcases ih (behaviour.insertRow conn row) with hsame | hidle
    · exact ⟨_, hsame.trans (Connection.attempt_eq_idle ..)⟩
    · exact hidle

namespace PostgresInstance

theorem behaviour_insertRows (pi : PostgresInstance) (rows : List (ResultKey × Int32)) :
    (pi.insertRows rows).behaviour = pi.behaviour := by
  unfold insertRows
  split <;> rfl

/-- Rows that fail are rolled back, so writing them leaves no failed transaction. -/
theorem failed_insertRows (pi : PostgresInstance) (rows : List (ResultKey × Int32)) :
    (pi.insertRows rows).conn.failed = pi.conn.failed := by
  unfold insertRows
  split
  · next hactive =>
    rcases pi.behaviour.foldl_insertRow rows pi.conn with hsame | ⟨db, hidle⟩
    · exact congrArg Connection.failed hsame
    · have hok : pi.conn.failed = false := by simpa using (Bool.and_eq_true_iff.mp hactive).2
      exact (congrArg Connection.failed hidle).trans hok.symm
  · rfl

/-- Writing rows does not change whether the instance is active. -/
theorem isActive_insertRows (pi : PostgresInstance) (rows : List (ResultKey × Int32)) :
    (pi.insertRows rows).isActive = pi.isActive := by
  unfold isActive
  rw [behaviour_insertRows, failed_insertRows]

/-- The tables may be written one after the other. -/
theorem insertRows_append (pi : PostgresInstance) (rows rows' : List (ResultKey × Int32)) :
    (pi.insertRows rows).insertRows rows' = pi.insertRows (rows ++ rows') := by
  have hactive := pi.isActive_insertRows rows
  unfold insertRows at hactive ⊢
  cases h : pi.isActive with
  | true =>
    rw [h] at hactive
    simp only [if_true] at hactive
    simp [hactive]
  | false => simp [h]

end PostgresInstance

/-- So `insertStats` writes all rows of the statistics to every instance. -/
theorem insertStats_eq (stats : Statistics) (instances : List PostgresInstance) :
    insertStats stats instances = insertRes stats.rows instances := by
  unfold insertStats insertResPartyCandidates insertResPartyPercent insertResPartyEducation
    insertResPartySex insertResPartyConstituency insertResPartyAge insertRes
  simp only [List.map_map]
  refine List.map_congr_left fun pi _ => ?_
  simp only [Function.comp, Statistics.rows, PostgresInstance.insertRows_append]

/-- The instances with their tables and behaviours, as a pass connects to them. -/
def connectAll (databases : List (Database × Behaviour)) : List PostgresInstance :=
  databases.map fun p => .connect p.1 p.2

theorem insertRows_connect (rows : List (ResultKey × Int32)) (db : Database)
    (behaviour : Behaviour) :
    (PostgresInstance.connect db behaviour).insertRows rows =
      .connect (behaviour.store rows db) behaviour := by
  have hattempts : rows.foldl behaviour.insertRow (.idle db) =
      .idle (rows.foldl behaviour.written db) := Connection.attempts_of_idle _ _ rows db
  unfold PostgresInstance.insertRows Behaviour.store PostgresInstance.isActive
  cases hreach : behaviour.reachable <;>
    simp [PostgresInstance.connect, hreach, hattempts]

theorem insertRes_connectAll (rows : List (ResultKey × Int32))
    (databases : List (Database × Behaviour)) :
    insertRes rows (connectAll databases) =
      connectAll (databases.map fun p => (p.2.store rows p.1, p.2)) := by
  unfold insertRes connectAll
  rw [List.map_map, List.map_map]
  exact List.map_congr_left fun p _ => insertRows_connect rows p.1 p.2

/-- `insertStats` leaves no transaction open, and every instance with what it accepts. -/
theorem insertStats_connectAll (stats : Statistics) (databases : List (Database × Behaviour)) :
    insertStats stats (connectAll databases) =
      connectAll (databases.map fun p => (p.2.store stats.rows p.1, p.2)) := by
  rw [insertStats_eq, insertRes_connectAll]

/-! ### What is loaded -/

/-- The dictionaries hold what the tables say, with 0 for a missing party. -/
def Dictionary.Loaded (d : Dictionary) (db : DictTables) : Prop :=
  (∀ c, d.dictCandidatesMap.lookup c = (db.dCandidates.lookup c).map fun p => p.getD 0) ∧
  ∀ a, d.ageGroupMap.lookup a = db.dAge.lookup a

/-- What is loaded from an instance into empty maps. -/
def DictTables.dictionary (db : DictTables) : Dictionary where
  dictCandidatesMap := Table.insertAll ∅ db.selectCandidates
  ageGroupMap := Table.insertAll ∅ db.selectAge

/-- What is loaded from several instances into empty maps, if nothing goes wrong. -/
def firstDictionary : List DictTables → Dictionary
  | []      => {}
  | db :: _ => db.dictionary

theorem DictTables.dictionary_loaded (db : DictTables) : db.dictionary.Loaded db :=
  ⟨Table.lookup_insertAll_map (fun p : Option Int32 => p.getD 0) db.dCandidates,
    Table.lookup_insertAll_toPairs db.dAge⟩

/-- Loading again from the same tables changes nothing. -/
private theorem DictTables.reload (db : DictTables) :
    Table.insertAll db.dictionary.dictCandidatesMap db.selectCandidates =
        db.dictionary.dictCandidatesMap ∧
      Table.insertAll db.dictionary.ageGroupMap db.selectAge = db.dictionary.ageGroupMap := by
  refine ⟨Table.insertAll_again ?_, Table.insertAll_again (Table.nodup_keys_toPairs _)⟩
  rw [DictTables.selectCandidates, List.map_map]
  exact Table.nodup_keys_toPairs _

/-- Loading while nothing goes wrong, into maps that are empty or have been loaded from the
    same tables before. -/
theorem getDictionaries_of_no_fault {databases : List (Database × Behaviour)}
    (hok : ∀ p ∈ databases, p.2 = {}) {d : Dictionary}
    (hd : d = firstDictionary (databases.map fun p => p.1.toDictTables)) {stats : Statistics}
    (hstats : stats.toDictionary = {} ∨ stats.toDictionary = d) :
    getDictionaries (connectAll databases) stats =
      ({ stats with toDictionary := d }, connectAll databases) := by
  subst hd
  obtain ⟨dict, m₁, m₂, m₃, m₄, m₅, m₆⟩ := stats
  cases databases with
  | nil =>
    obtain rfl : dict = {} := by simpa [firstDictionary] using hstats
    rfl
  | cons p databases =>
    obtain ⟨db, behaviour⟩ := p
    obtain rfl : behaviour = {} := hok _ (List.mem_cons_self ..)
    rcases hstats with rfl | rfl
    · rfl
    -- the maps are not cleared before they are loaded again
    · obtain ⟨hcand, hage⟩ := db.reload
      show (Statistics.mk ⟨Table.insertAll db.dictionary.dictCandidatesMap db.selectCandidates,
        Table.insertAll db.dictionary.ageGroupMap db.selectAge⟩ m₁ m₂ m₃ m₄ m₅ m₆, _) = _
      rw [hcand, hage]
      rfl

/-- A database with one party, one candidate of it and one row in every other dictionary. -/
def Sample.database : Database where
  dParties := [1]
  dCandidates := AList.insert 1 (some 1) ∅
  dAge := AList.insert 4 (61, 200) ∅
  dConstituencies := [1]
  dEducation := [2]
  dSex := [1]
  fkPartyId := fun c p h => by
    rw [Table.lookup_insert_eq] at h
    split at h
    · exact List.mem_singleton.mpr (Option.some.inj (Option.some.inj h)).symm
    · simp at h

end RsoVoting.Aggregator
