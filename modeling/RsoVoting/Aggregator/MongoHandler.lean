import RsoVoting.Aggregator.Statistics
import RsoVoting.Document

namespace RsoVoting.Aggregator

open RsoVoting

/-!
# Reading the votes of all Mongo instances

Every instance is read into a map of its own, which is kept only if the cursor comes to its
end without an exception; the maps of the instances are then merged by row id.

* `readVote` — what the callback of the cursor reads from a document;
* `MongoInstance.forEach` — one cursor, from an empty map;
* `MongoHandler.getAllData` — the loop over the instances, the merge and the statistics;
* `MongoInstance.Delivers` — when an instance contributes: it answers the ping, its cursor
  has no connection error, and the callback can read every document;
* `exists_of_lookup_collected` / `isSome_lookup_collected` — what is in the merged map.
-/

/-- `(int) integer`, the unboxing of a getter's result. -/
def unbox : Option Int32 → Except ReadError Int32
  | some n => .ok n
  | none   => .error .nullPointerException

/-- The row id and the vote that the callback reads from a document. -/
def readVote (document : Document) : Except ReadError (Option String × VoteInfo) := do
  let rowId ← getString document.rowId
  let pesel ← getString document.pesel
  let vote ← getInteger document.vote >>= unbox
  let votingArea ← getInteger document.constituency >>= unbox
  let gender ← getInteger document.gender >>= unbox
  let education ← getInteger document.education >>= unbox
  return (rowId, { pesel, vote, votingArea, gender, education, rowId })

/-- The callback cannot read the document. -/
def Malformed (document : Document) : Prop := ∃ e, readVote document = .error e

instance (document : Document) : Decidable (Malformed document) :=
  match h : readVote document with
  | .error e => .isTrue ⟨e, h⟩
  | .ok p    => .isFalse fun ⟨e, he⟩ => by rw [h] at he; cases he

/-- What ends a cursor early: an exception of the callback or of the driver. -/
inductive CursorException where
  | callback (e : ReadError)
  | mongoException
deriving DecidableEq, Repr

/-- A Mongo instance with its collection, and how it behaves while the votes are read. -/
structure MongoInstance where
  documents : List Document
  /-- Whether it answers the ping of `checkStatus`. -/
  ping : Bool := true
  /-- After how many documents the cursor has a connection error. -/
  cursorFailsAfter : Option ℕ := none
deriving DecidableEq, Repr

/-- `apply(document)`: the vote is put into the map of the instance. -/
def apply (map : VoteMap) (document : Document) : Except CursorException VoteMap :=
  match readVote document with
  | .ok (rowId, vi) => .ok (Table.put map rowId vi)
  | .error e        => .error (.callback e)

namespace MongoInstance

/-- `output.forEach(...)`, from an empty map. -/
def forEach (mi : MongoInstance) : Except CursorException VoteMap :=
  match mi.cursorFailsAfter with
  | none   => mi.documents.foldlM apply ∅
  | some n =>
    match (mi.documents.take n).foldlM apply ∅ with
    | .ok _    => .error .mongoException
    | .error e => .error e

/-- The body of the loop in `getAllData`: the map that is added to `aggregList`, if any.
    The loop catches every exception and goes on. -/
def read (mi : MongoInstance) : Option VoteMap :=
  if mi.ping then mi.forEach.toOption else none

end MongoInstance

/-- The handler of one pass. -/
structure MongoHandler where
  mapMongoInstances : List MongoInstance
  mapAllData : VoteMap := ∅

namespace MongoHandler

/-- `removeDuplicates(list)`: the maps are put into `mapAllData` one after the other. -/
def removeDuplicates (list : List VoteMap) (h : MongoHandler) : MongoHandler :=
  { h with mapAllData :=
      list.foldl (fun all map => Table.insertAll all (Table.toPairs map)) h.mapAllData }

/-- `getAllData()`, with the statistics it updates. -/
def getAllData (clock : Option String → Clock) (h : MongoHandler) (stats : Statistics) :
    MongoHandler × Statistics :=
  let aggregList := h.mapMongoInstances.filterMap MongoInstance.read
  let h := h.removeDuplicates aggregList
  (h, stats.calculateAll clock h.mapAllData)

/-- `clear()`, which also clears the statistics. -/
def clear (h : MongoHandler) (stats : Statistics) : MongoHandler × Statistics :=
  ({ h with mapAllData := ∅ }, stats.clear)

end MongoHandler

/-- What a new handler has in `mapAllData` after `getAllData`. -/
def collected (instances : List MongoInstance) : VoteMap :=
  (MongoHandler.removeDuplicates (instances.filterMap MongoInstance.read)
    { mapMongoInstances := instances }).mapAllData

@[simp] theorem mapAllData_getAllData (clock : Option String → Clock)
    (instances : List MongoInstance) (stats : Statistics) :
    (MongoHandler.getAllData clock { mapMongoInstances := instances } stats).1.mapAllData =
      collected instances := rfl

@[simp] theorem stats_getAllData (clock : Option String → Clock)
    (instances : List MongoInstance) (stats : Statistics) :
    (MongoHandler.getAllData clock { mapMongoInstances := instances } stats).2 =
      stats.calculateAll clock (collected instances) := rfl

/-! ### One instance -/

namespace MongoInstance

/-- The driver delivers all documents of the instance. -/
def Connected (mi : MongoInstance) : Prop := mi.ping = true ∧ mi.cursorFailsAfter = none

/-- The instance is read to the end. -/
def Delivers (mi : MongoInstance) : Prop :=
  mi.Connected ∧ ∀ d ∈ mi.documents, ¬ Malformed d

instance (mi : MongoInstance) : Decidable mi.Connected :=
  inferInstanceAs (Decidable (_ ∧ _))

instance (mi : MongoInstance) : Decidable mi.Delivers :=
  inferInstanceAs (Decidable (_ ∧ _))

/-- The instance has a document of the row id with the fields of `vi`. -/
def Stores (mi : MongoInstance) (rowId : Option String) (vi : VoteInfo) : Prop :=
  ∃ d ∈ mi.documents, readVote d = .ok (rowId, vi)

end MongoInstance

theorem not_malformed_iff {d : Document} : ¬ Malformed d ↔ ∃ p, readVote d = .ok p := by
  unfold Malformed
  cases readVote d <;> simp

/-- The votes in a list of documents, with their row ids. -/
def votesOf (ds : List Document) : List (Option String × VoteInfo) :=
  ds.filterMap fun d => (readVote d).toOption

theorem mem_votesOf {ds : List Document} {p : Option String × VoteInfo} :
    p ∈ votesOf ds ↔ ∃ d ∈ ds, readVote d = .ok p := by
  rw [votesOf, List.mem_filterMap]
  refine exists_congr fun d => and_congr_right fun _ => ?_
  cases readVote d <;> simp [Except.toOption]

theorem mem_votesOf_iff_stores {mi : MongoInstance} {rowId : Option String} {vi : VoteInfo} :
    (rowId, vi) ∈ votesOf mi.documents ↔ mi.Stores rowId vi := mem_votesOf

/-- The callback goes through all documents if none is malformed, and puts in the votes. -/
private theorem foldlM_apply {ds : List Document} {m m' : VoteMap} :
    ds.foldlM apply m = .ok m' ↔
      (∀ d ∈ ds, ¬ Malformed d) ∧ m' = Table.insertAll m (votesOf ds) := by
  induction ds generalizing m with
  | nil => exact ⟨fun h => ⟨by simp, (Except.ok.inj h).symm⟩, fun h => congrArg _ h.2.symm⟩
  | cons d ds ih =>
    rw [List.foldlM_cons, List.forall_mem_cons]
    cases hd : readVote d with
    | error e =>
      -- the exception of the callback ends the loop
      have hmal : Malformed d := ⟨e, hd⟩
      simp [apply, hd, hmal, bind, Except.bind]
    | ok p =>
      have hwf : ¬ Malformed d := not_malformed_iff.mpr ⟨p, hd⟩
      have hvotes : votesOf (d :: ds) = p :: votesOf ds := by
        simp [votesOf, hd, Except.toOption]
      have hstep : apply m d >>= (fun s => ds.foldlM apply s) =
          ds.foldlM apply (Table.put m p.1 p.2) := by
        simp [apply, hd, bind, Except.bind]
      rw [hstep, ih, hvotes, Table.insertAll_cons]
      simp [hwf]

/-- **An instance contributes all its votes or nothing**, and it contributes exactly if it
    is read to the end. -/
theorem read_eq_some {mi : MongoInstance} {map : VoteMap} :
    mi.read = some map ↔
      mi.Delivers ∧ map = Table.insertAll ∅ (votesOf mi.documents) := by
  unfold MongoInstance.read MongoInstance.Delivers MongoInstance.Connected
  cases hping : mi.ping with
  | false => simp
  | true =>
    rw [if_pos rfl, MongoInstance.forEach]
    cases hcursor : mi.cursorFailsAfter with
    | none =>
      -- the cursor has no error of its own: it ends as the callback lets it
      have hsome : (mi.documents.foldlM apply ∅).toOption = some map ↔
          mi.documents.foldlM apply ∅ = .ok map := by
        cases mi.documents.foldlM apply ∅ <;> simp [Except.toOption]
      rw [hsome, foldlM_apply]
      simp
    | some n =>
      -- a connection error loses the map, however far the cursor came
      dsimp only
      split <;> simp [Except.toOption]

/-! ### All instances -/

/-- The merge puts in the pairs of all maps. -/
theorem collected_eq (instances : List MongoInstance) :
    collected instances =
      Table.insertAll ∅ ((instances.filterMap MongoInstance.read).flatMap Table.toPairs) := by
  have hfold : ∀ (list : List VoteMap) (all : VoteMap),
      list.foldl (fun all map => Table.insertAll all (Table.toPairs map)) all =
        Table.insertAll all (list.flatMap Table.toPairs) := by
    intro list
    induction list with
    | nil => exact fun _ => rfl
    | cons map list ih =>
      intro all
      rw [List.foldl_cons, ih, List.flatMap_cons, Table.insertAll_append]
  exact hfold _ ∅

/-- What is in the merged map is on an instance that was read to the end. -/
theorem exists_of_lookup_collected {instances : List MongoInstance} {rowId : Option String}
    {vi : VoteInfo} (h : (collected instances).lookup rowId = some vi) :
    ∃ mi ∈ instances, mi.Delivers ∧ mi.Stores rowId vi := by
  rw [collected_eq] at h
  -- back through the merge to a map, and through the map to a document
  rcases Table.mem_of_lookup_insertAll h with hmem | hempty
  · obtain ⟨map, hmap, hpair⟩ := List.mem_flatMap.mp hmem
    obtain ⟨mi, hmi, hread⟩ := List.mem_filterMap.mp hmap
    obtain ⟨hdel, rfl⟩ := read_eq_some.mp hread
    rcases Table.mem_of_lookup_insertAll (Table.mem_toPairs.mp hpair) with hvote | hempty
    · exact ⟨mi, hmi, hdel, mem_votesOf_iff_stores.mp hvote⟩
    · simp at hempty
  · simp at hempty

/-- **The row ids of the merged map** are those on the instances that were read to the end. -/
theorem isSome_lookup_collected {instances : List MongoInstance} {rowId : Option String} :
    ((collected instances).lookup rowId).isSome = true ↔
      ∃ mi ∈ instances, mi.Delivers ∧ ∃ vi, mi.Stores rowId vi := by
  constructor
  · intro h
    obtain ⟨vi, hvi⟩ := Option.isSome_iff_exists.mp h
    obtain ⟨mi, hmi, hdel, hst⟩ := exists_of_lookup_collected hvi
    exact ⟨mi, hmi, hdel, vi, hst⟩
  · rintro ⟨mi, hmi, hdel, vi, hst⟩
    have hread : mi.read = some (Table.insertAll ∅ (votesOf mi.documents)) :=
      read_eq_some.mpr ⟨hdel, rfl⟩
    obtain ⟨vi', hvi'⟩ := Option.isSome_iff_exists.mp
      (Table.isSome_lookup_insertAll (m := (∅ : VoteMap)).mpr
        (.inl ⟨vi, mem_votesOf_iff_stores.mpr hst⟩))
    rw [collected_eq, Table.isSome_lookup_insertAll]
    refine .inl ⟨vi', List.mem_flatMap.mpr ⟨_, List.mem_filterMap.mpr ⟨mi, hmi, hread⟩, ?_⟩⟩
    exact Table.mem_toPairs.mpr hvi'

end RsoVoting.Aggregator
