import RsoVoting.Aggregator.FailedTransactions

namespace RsoVoting.Aggregator

open RsoVoting

/-!
# Dictionaries that are read in part

`getDictData` asks one instance after the other until one delivers its rows, and writes every
row into the dictionary as soon as it is read.  Rows of an instance that fails half-way stay
there.

* `partialRows` / `strayRows` — the rows that are read before an instance delivers;
* `getDictData_eq` — the dictionary is filled with them, and then with the rows of the first
  instance that delivers;
* `AllOrNothing` — the dictionary is loaded from one instance, or not at all;
* `getDictData_allOrNothing_iff` — it is exactly if the stray rows are overwritten;
* `half_read_dictionary` — which they need not be.
-/

variable {V : Type} (query : Database → List (Int32 × V)) (fault : Behaviour → QueryFault)

/-! ### What is read -/

/-- The rows that are read from an instance before the driver throws. -/
def PostgresInstance.partialRows (pi : PostgresInstance) : List (Int32 × V) :=
  match pi.isActive, fault pi.behaviour with
  | true, .reading n => (query pi.conn.current).take n
  | _, _             => []

/-- The first instance that delivers its result completely. -/
def firstDelivering (instances : List PostgresInstance) : Option PostgresInstance :=
  instances.find? fun pi => pi.delivers fault

/-- The rows that are read in part, before an instance delivers or the list ends. -/
def strayRows (instances : List PostgresInstance) : List (Int32 × V) :=
  (instances.takeWhile fun pi => !pi.delivers fault).flatMap
    (PostgresInstance.partialRows query fault)

/-- The rows that a list of instances delivers: those of one instance, or none. -/
def deliveredRows (instances : List PostgresInstance) : List (Int32 × V) :=
  match firstDelivering fault instances with
  | some pi => query pi.conn.current
  | none    => []

section Cons

variable {fault} {pi : PostgresInstance} (rest : List PostgresInstance)

theorem firstDelivering_of_delivers (h : pi.delivers fault = true) :
    firstDelivering fault (pi :: rest) = some pi := by
  show (pi :: rest).find? _ = _
  rw [List.find?_cons, h]

theorem firstDelivering_of_fails (h : pi.delivers fault = false) :
    firstDelivering fault (pi :: rest) = firstDelivering fault rest := by
  show (pi :: rest).find? _ = _
  rw [List.find?_cons, h]
  rfl

theorem strayRows_of_delivers (h : pi.delivers fault = true) :
    strayRows query fault (pi :: rest) = [] := by
  show ((pi :: rest).takeWhile _).flatMap _ = _
  rw [List.takeWhile_cons, h]
  rfl

theorem strayRows_of_fails (h : pi.delivers fault = false) :
    strayRows query fault (pi :: rest) =
      pi.partialRows query fault ++ strayRows query fault rest := by
  show ((pi :: rest).takeWhile _).flatMap _ = _
  rw [List.takeWhile_cons, h]
  rfl

end Cons

/-! ### The loop -/

section Loop

variable [DecidableEq V] (map : Table Int32 V)

/-- The loop ends at an instance that delivers. -/
theorem getDictData_of_delivers {pi : PostgresInstance} (h : pi.delivers fault = true)
    (rest : List PostgresInstance) :
    getDictData query fault (pi :: rest) map =
      (Table.insertAll map (query pi.conn.current), pi :: rest, true) := by
  obtain ⟨hactive, hfault⟩ := Bool.and_eq_true_iff.mp h
  rw [getDictData, if_pos hactive, of_decide_eq_true hfault]

/-- From an instance that does not, it goes on with what has been read there. -/
theorem getDictData_of_fails {pi : PostgresInstance} (h : pi.delivers fault = false)
    (rest : List PostgresInstance) :
    (getDictData query fault (pi :: rest) map).1 =
        (getDictData query fault rest
          (Table.insertAll map (pi.partialRows query fault))).1 ∧
      (getDictData query fault (pi :: rest) map).2.2 =
        (getDictData query fault rest
          (Table.insertAll map (pi.partialRows query fault))).2.2 := by
  unfold PostgresInstance.delivers at h
  rw [getDictData, PostgresInstance.partialRows]
  cases hactive : pi.isActive with
  | false => exact ⟨rfl, rfl⟩
  | true =>
    cases hfault : fault pi.behaviour with
    | none      => simp [hactive, hfault] at h
    | statement => exact ⟨rfl, rfl⟩
    | reading n => exact ⟨rfl, rfl⟩

/-- **What `getDictData` makes of a dictionary**: the stray rows are put there, then those
    that are delivered. -/
theorem fst_getDictData (instances : List PostgresInstance) :
    (getDictData query fault instances map).1 =
      Table.insertAll (Table.insertAll map (strayRows query fault instances))
        (deliveredRows query fault instances) := by
  induction instances generalizing map with
  | nil => rfl
  | cons pi rest ih =>
    unfold deliveredRows at ih ⊢
    cases h : pi.delivers fault with
    | true =>
      rw [getDictData_of_delivers query fault map h, strayRows_of_delivers query rest h,
        firstDelivering_of_delivers rest h]
      rfl
    | false =>
      rw [(getDictData_of_fails query fault map h rest).1, ih,
        strayRows_of_fails query rest h, firstDelivering_of_fails rest h,
        Table.insertAll_append]

/-- It returns whether an instance has delivered. -/
theorem dataDownloaded_getDictData (instances : List PostgresInstance) :
    (getDictData query fault instances map).2.2 =
      (firstDelivering fault instances).isSome := by
  induction instances generalizing map with
  | nil => rfl
  | cons pi rest ih =>
    cases h : pi.delivers fault with
    | true =>
      rw [getDictData_of_delivers query fault map h, firstDelivering_of_delivers rest h]
      rfl
    | false =>
      rw [(getDictData_of_fails query fault map h rest).2, ih, firstDelivering_of_fails rest h]

end Loop

/-! ### All or nothing -/

variable [DecidableEq V]

/-- Loading an empty dictionary is all or nothing, and from one instance: if `getDictData`
    returns true it holds the rows of the first instance that has delivered its result, and
    if it returns false it is empty. -/
def AllOrNothing (instances : List PostgresInstance) : Prop :=
  let (map, _, dataDownloaded) := getDictData query fault instances ∅
  (dataDownloaded = true → ∃ pi, firstDelivering fault instances = some pi ∧
    ∀ id, map.lookup id = (Table.insertAll ∅ (query pi.conn.current)).lookup id) ∧
  (dataDownloaded = false → map = ∅)

/-- No stray row is left: the first instance that delivers has a row under every id of a
    stray row and, if none delivers, there are no stray rows. -/
def Overwritten (instances : List PostgresInstance) : Prop :=
  match firstDelivering fault instances with
  | some pi => ∀ row ∈ strayRows query fault instances,
      row.1 ∈ (query pi.conn.current).map Prod.fst
  | none    => strayRows query fault instances = []

/-- A dictionary that is filled from nothing is empty only if there is nothing to fill in. -/
theorem insertAll_empty_eq_empty {rows : List (Int32 × V)} :
    Table.insertAll ∅ rows = (∅ : Table Int32 V) ↔ rows = [] := by
  constructor
  · intro h
    apply List.eq_nil_iff_forall_not_mem.mpr
    intro row hrow
    have hsome := Table.isSome_lookup_insertAll.mpr
      (.inl ⟨row.2, hrow⟩ : _ ∨ ((∅ : Table Int32 V).lookup row.1).isSome = true)
    rw [h] at hsome
    simp at hsome
  · intro h
    rw [h]
    rfl

/-- Rows that are put on top of others hide them all if they have all their ids. -/
theorem lookup_insertAll_eq_iff {stray rows : List (Int32 × V)} :
    (∀ id, (Table.insertAll (Table.insertAll ∅ stray) rows).lookup id =
        (Table.insertAll (∅ : Table Int32 V) rows).lookup id) ↔
      ∀ row ∈ stray, row.1 ∈ rows.map Prod.fst := by
  constructor
  · intro h row hrow
    by_contra hmem
    -- the stray row is still there, but nothing is delivered under its id
    have hrows : (Table.insertAll (∅ : Table Int32 V) rows).lookup row.1 = none := by
      rw [Table.lookup_insertAll_of_not_mem hmem]
      exact AList.lookup_empty _
    have hsome := Table.isSome_lookup_insertAll.mpr
      (.inl ⟨row.2, hrow⟩ : _ ∨ ((∅ : Table Int32 V).lookup row.1).isSome = true)
    have hid := h row.1
    rw [Table.lookup_insertAll_of_not_mem hmem, hrows] at hid
    rw [hid] at hsome
    simp at hsome
  · intro h id
    by_cases hmem : id ∈ rows.map Prod.fst
    · exact Table.lookup_insertAll_of_mem hmem
    · have hstray : id ∉ stray.map Prod.fst := by
        intro hid
        obtain ⟨row, hrow, rfl⟩ := List.mem_map.mp hid
        exact hmem (h row hrow)
      rw [Table.lookup_insertAll_of_not_mem hmem, Table.lookup_insertAll_of_not_mem hmem,
        Table.lookup_insertAll_of_not_mem hstray]

/-- **Loading is all or nothing exactly if no stray row is left.** -/
theorem getDictData_allOrNothing_iff (instances : List PostgresInstance) :
    AllOrNothing query fault instances ↔ Overwritten query fault instances := by
  show ((getDictData query fault instances ∅).2.2 = true → _) ∧
    ((getDictData query fault instances ∅).2.2 = false → _) ↔ _
  rw [dataDownloaded_getDictData, fst_getDictData, deliveredRows, Overwritten]
  cases firstDelivering fault instances with
  | some pi =>
    apply Iff.trans _ lookup_insertAll_eq_iff
    constructor
    · intro h id
      obtain ⟨pi', hpi, hlook⟩ := h.1 rfl
      obtain rfl := Option.some.inj hpi
      exact hlook id
    · intro h
      exact ⟨fun _ => ⟨pi, rfl, h⟩, fun hfalse => by simp at hfalse⟩
  | none =>
    show (_ → _) ∧ (_ → Table.insertAll ∅ _ = ∅) ↔ _
    rw [insertAll_empty_eq_empty]
    constructor
    · intro h
      exact h.2 rfl
    · intro h
      exact ⟨fun htrue => by simp at htrue, fun _ => h⟩

namespace Sample

/-- An instance whose age groups are read up to the first one. -/
def halfRead : PostgresInstance := .connect database { selectAge := .reading 1 }

/-- A database with nothing but another age group. -/
def otherDatabase : Database where
  dParties := []
  dCandidates := ∅
  dAge := AList.insert 2 (18, 60) ∅
  dConstituencies := []
  dEducation := []
  dSex := []
  fkPartyId := fun c p h => by
    rw [AList.lookup_empty] at h
    exact absurd h (Option.some_ne_none _).symm

/-- An instance with other age groups. -/
def otherAges : PostgresInstance := .connect otherDatabase {}

end Sample

/-- **A half-read dictionary**: a group that has been read before the driver throws is kept
    when no instance delivers, and is kept next to the groups of the one that does. -/
theorem half_read_dictionary :
    ¬AllOrNothing (fun db => db.selectAge) Behaviour.selectAge [Sample.halfRead] ∧
      ¬AllOrNothing (fun db => db.selectAge) Behaviour.selectAge
        [Sample.halfRead, Sample.otherAges] := by
  constructor
  · intro h
    have hlook := congrArg (AList.lookup 4) (h.2 rfl)
    exact absurd hlook (by decide)
  · intro h
    obtain ⟨pi, hpi, hlook⟩ := h.1 rfl
    obtain rfl : Sample.otherAges = pi := Option.some.inj hpi
    exact absurd (hlook 4) (by decide)

end RsoVoting.Aggregator
