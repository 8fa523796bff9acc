import RsoVoting.Aggregator.MongoHandler

namespace RsoVoting.Aggregator

open RsoVoting

/-!
# Replicated votes

The two-phase commit stores every vote on several instances, and the aggregator merges the
copies by row id.

* `replicas_are_counted_once` — with well-formed documents the merged map is the union of
  the instances that deliver, in whatever order, so fewer failures than copies change nothing;
* `good_votes_kept_iff` — a malformed document ends the cursor of its instance, so a vote
  gets through exactly if one of its instances has no malformed document.
-/

namespace MongoInstance

/-- The instance has a document of the row id that the callback can read. -/
def holds (mi : MongoInstance) (rowId : Option String) : Bool :=
  (votesOf mi.documents).any fun p => p.1 = rowId

theorem holds_iff {mi : MongoInstance} {rowId : Option String} :
    mi.holds rowId = true ↔ ∃ vi, mi.Stores rowId vi := by
  rw [holds, List.any_eq_true]
  constructor
  · rintro ⟨⟨r, vi⟩, hp, hr⟩
    obtain rfl : r = rowId := of_decide_eq_true hr
    exact ⟨vi, mem_votesOf_iff_stores.mp hp⟩
  · rintro ⟨vi, hst⟩
    exact ⟨(rowId, vi), mem_votesOf_iff_stores.mpr hst, decide_eq_true rfl⟩

/-- The instance without its failures. -/
def restored (mi : MongoInstance) : MongoInstance := { documents := mi.documents }

/-- The same documents in some order, and the same chance to deliver them. -/
def Rearranged (mi mi' : MongoInstance) : Prop :=
  mi.documents.Perm mi'.documents ∧ (mi.Connected ↔ mi'.Connected)

instance (mi mi' : MongoInstance) : Decidable (mi.Rearranged mi') :=
  inferInstanceAs (Decidable (_ ∧ _))

@[simp] theorem restored_connected (mi : MongoInstance) : mi.restored.Connected := ⟨rfl, rfl⟩

theorem Rearranged.stores {mi mi' : MongoInstance} (h : mi.Rearranged mi')
    {rowId : Option String} {vi : VoteInfo} : mi.Stores rowId vi ↔ mi'.Stores rowId vi :=
  exists_congr fun _ => and_congr_left fun _ => h.1.mem_iff

end MongoInstance

/-! ### Well-formed documents -/

/-- No instance has a malformed document. -/
def WellFormed (instances : List MongoInstance) : Prop :=
  ∀ mi ∈ instances, ∀ d ∈ mi.documents, ¬ Malformed d

/-- All copies of a row id carry the same fields. -/
def Consistent (instances : List MongoInstance) : Prop :=
  ∀ mi ∈ instances, ∀ mi' ∈ instances, ∀ rowId vi vi',
    mi.Stores rowId vi → mi'.Stores rowId vi' → vi = vi'

/-- Every row id is on at least `r` instances. -/
def Replicated (r : ℕ) (instances : List MongoInstance) : Prop :=
  ∀ mi ∈ instances, ∀ rowId vi, mi.Stores rowId vi →
    r ≤ instances.countP fun mi => mi.holds rowId

instance (instances : List MongoInstance) : Decidable (WellFormed instances) :=
  inferInstanceAs (Decidable (∀ mi ∈ instances, ∀ d ∈ mi.documents, ¬ Malformed d))

instance (instances : List MongoInstance) : Decidable (Consistent instances) :=
  decidable_of_iff (∀ mi ∈ instances, ∀ mi' ∈ instances, ∀ p ∈ votesOf mi.documents,
      ∀ p' ∈ votesOf mi'.documents, p.1 = p'.1 → p.2 = p'.2)
    ⟨fun h mi hmi mi' hmi' rowId vi vi' hst hst' =>
      h mi hmi mi' hmi' (rowId, vi) (mem_votesOf_iff_stores.mpr hst) (rowId, vi')
        (mem_votesOf_iff_stores.mpr hst') rfl,
    fun h mi hmi mi' hmi' p hp p' hp' hr =>
      h mi hmi mi' hmi' p.1 p.2 p'.2 (mem_votesOf_iff_stores.mp hp)
        (mem_votesOf_iff_stores.mp (hr ▸ hp'))⟩

instance (r : ℕ) (instances : List MongoInstance) : Decidable (Replicated r instances) :=
  decidable_of_iff (∀ mi ∈ instances, ∀ p ∈ votesOf mi.documents,
      r ≤ instances.countP fun mi => mi.holds p.1)
    ⟨fun h mi hmi rowId vi hst => h mi hmi (rowId, vi) (mem_votesOf_iff_stores.mpr hst),
    fun h mi hmi (rowId, vi) hp => h mi hmi rowId vi (mem_votesOf_iff_stores.mp hp)⟩

/-- The instances in some order, each with its documents in some order. -/
def Rearranged (instances instances' : List MongoInstance) : Prop :=
  ∃ mid, instances.Perm mid ∧ List.Forall₂ MongoInstance.Rearranged mid instances'

section

variable {instances : List MongoInstance}

/-- The merged map is the union of the instances that are connected. -/
theorem lookup_collected (hwf : WellFormed instances) (hcons : Consistent instances)
    {rowId : Option String} {vi : VoteInfo} :
    (collected instances).lookup rowId = some vi ↔
      ∃ mi ∈ instances, mi.Connected ∧ mi.Stores rowId vi := by
  constructor
  · intro h
    obtain ⟨mi, hmi, hdel, hst⟩ := exists_of_lookup_collected h
    exact ⟨mi, hmi, hdel.1, hst⟩
  · rintro ⟨mi, hmi, hconn, hst⟩
    -- the row is in the map; its fields are those of a copy, and all copies agree
    obtain ⟨vi', hvi'⟩ := Option.isSome_iff_exists.mp
      (isSome_lookup_collected.mpr ⟨mi, hmi, ⟨hconn, hwf mi hmi⟩, vi, hst⟩)
    obtain ⟨mi', hmi', -, hst'⟩ := exists_of_lookup_collected hvi'
    rw [hvi', hcons mi hmi mi' hmi' rowId vi vi' hst hst']

/-- Two families with the same connected copies are merged to the same map. -/
private theorem lookup_collected_congr {instances' : List MongoInstance}
    (hwf : WellFormed instances) (hcons : Consistent instances)
    (hwf' : WellFormed instances') (hcons' : Consistent instances')
    (h : ∀ rowId vi, (∃ mi ∈ instances, mi.Connected ∧ mi.Stores rowId vi) ↔
      ∃ mi ∈ instances', mi.Connected ∧ mi.Stores rowId vi) (rowId : Option String) :
    (collected instances).lookup rowId = (collected instances').lookup rowId :=
  Option.ext fun vi => by
    rw [lookup_collected hwf hcons, lookup_collected hwf' hcons', h]

/-- Related lists: every element of the first has a partner in the second. -/
private theorem exists_of_forall₂ {α β : Type} {R : α → β → Prop} {xs : List α} {ys : List β}
    (h : List.Forall₂ R xs ys) {x : α} (hx : x ∈ xs) : ∃ y ∈ ys, R x y := by
  induction h with
  | nil => cases hx
  | cons hxy _ ih =>
    rcases List.mem_cons.mp hx with rfl | hx
    · exact ⟨_, by simp, hxy⟩
    · obtain ⟨y, hy, hxy⟩ := ih hx
      exact ⟨y, by simp [hy], hxy⟩

/-- Every instance of the original family is in the rearranged one. -/
private theorem Rearranged.exists_left {instances' : List MongoInstance}
    (h : Rearranged instances instances') {mi : MongoInstance} (hmi : mi ∈ instances) :
    ∃ mi' ∈ instances', mi.Rearranged mi' := by
  obtain ⟨mid, hperm, hall⟩ := h
  exact exists_of_forall₂ hall (hperm.mem_iff.mp hmi)

/-- Every instance of a rearranged family is one of the original family. -/
private theorem Rearranged.exists_right {instances' : List MongoInstance}
    (h : Rearranged instances instances') {mi' : MongoInstance} (hmi' : mi' ∈ instances') :
    ∃ mi ∈ instances, mi.Rearranged mi' := by
  obtain ⟨mid, hperm, hall⟩ := h
  obtain ⟨mi, hmi, hre⟩ := exists_of_forall₂ (R := flip MongoInstance.Rearranged) hall.flip hmi'
  exact ⟨mi, hperm.mem_iff.mpr hmi, hre⟩

private theorem lookup_collected_rearranged {instances' : List MongoInstance}
    (hwf : WellFormed instances) (hcons : Consistent instances)
    (h : Rearranged instances instances') (rowId : Option String) :
    (collected instances).lookup rowId = (collected instances').lookup rowId := by
  refine lookup_collected_congr hwf hcons ?_ ?_ (fun rowId vi => ?_) rowId
  · intro mi' hmi' d hd
    obtain ⟨mi, hmi, hre⟩ := h.exists_right hmi'
    exact hwf mi hmi d (hre.1.mem_iff.mpr hd)
  · intro mi₁ hmi₁ mi₂ hmi₂ r vi₁ vi₂ hst₁ hst₂
    obtain ⟨mi₁', hmi₁', hre₁⟩ := h.exists_right hmi₁
    obtain ⟨mi₂', hmi₂', hre₂⟩ := h.exists_right hmi₂
    exact hcons mi₁' hmi₁' mi₂' hmi₂' r vi₁ vi₂ (hre₁.stores.mpr hst₁) (hre₂.stores.mpr hst₂)
  · constructor
    · rintro ⟨mi, hmi, hconn, hst⟩
      obtain ⟨mi', hmi', hre⟩ := h.exists_left hmi
      exact ⟨mi', hmi', hre.2.mp hconn, hre.stores.mp hst⟩
    · rintro ⟨mi', hmi', hconn, hst⟩
      obtain ⟨mi, hmi, hre⟩ := h.exists_right hmi'
      exact ⟨mi, hmi, hre.2.mpr hconn, hre.stores.mpr hst⟩

/-- If more instances hold a row id than are not connected, a connected one holds it. -/
private theorem exists_connected_holds {rowId : Option String}
    (h : (instances.countP fun mi => ¬ mi.Connected) <
      instances.countP fun mi => mi.holds rowId) :
    ∃ mi ∈ instances, mi.Connected ∧ mi.holds rowId = true := by
  by_contra hnone
  -- otherwise every holder is one that is not connected
  have hle : (instances.countP fun mi => mi.holds rowId) ≤
      instances.countP fun mi => ¬ mi.Connected :=
    List.countP_mono_left fun mi hmi hholds =>
      decide_eq_true fun hconn => hnone ⟨mi, hmi, hconn, hholds⟩
  omega

private theorem lookup_collected_restored {r : ℕ} (hwf : WellFormed instances)
    (hcons : Consistent instances)
    (hcopies : Replicated r instances)
    (hfail : (instances.countP fun mi => ¬ mi.Connected) < r) (rowId : Option String) :
    (collected instances).lookup rowId =
      (collected (instances.map MongoInstance.restored)).lookup rowId := by
  refine lookup_collected_congr hwf hcons ?_ ?_ (fun rowId vi => ?_) rowId
  · intro mi' hmi'
    obtain ⟨mi, hmi, rfl⟩ := List.mem_map.mp hmi'
    exact hwf mi hmi
  · intro mi₁ hmi₁ mi₂ hmi₂ r vi₁ vi₂ hst₁ hst₂
    obtain ⟨mi₁', hmi₁', rfl⟩ := List.mem_map.mp hmi₁
    obtain ⟨mi₂', hmi₂', rfl⟩ := List.mem_map.mp hmi₂
    exact hcons mi₁' hmi₁' mi₂' hmi₂' r vi₁ vi₂ hst₁ hst₂
  · constructor
    · rintro ⟨mi, hmi, -, hst⟩
      exact ⟨mi.restored, List.mem_map_of_mem hmi, mi.restored_connected, hst⟩
    · rintro ⟨mi', hmi', -, hst⟩
      obtain ⟨mi, hmi, rfl⟩ := List.mem_map.mp hmi'
      -- the copy may be on a failed instance, but one on another instance is left
      have hst : mi.Stores rowId vi := hst
      obtain ⟨mi₁, hmi₁, hconn, hholds₁⟩ :=
        exists_connected_holds (Nat.lt_of_lt_of_le hfail (hcopies mi hmi rowId vi hst))
      obtain ⟨vi₁, hst₁⟩ := MongoInstance.holds_iff.mp hholds₁
      obtain rfl := hcons mi hmi mi₁ hmi₁ rowId vi vi₁ hst hst₁
      exact ⟨mi₁, hmi₁, hconn, hst₁⟩

/-- **Replicated votes are counted exactly once and survive host failures.**  The merged map
    has exactly the rows of the connected instances, each once and with its own fields, in
    whatever order instances and documents come; and if every row id is on at least `r`
    instances, of which fewer than `r` are not connected, then the map and all statistics
    are what they would be without failures. -/
theorem replicas_are_counted_once (hwf : WellFormed instances) (hcons : Consistent instances)
    (clock : Option String → Clock) (stats : Statistics) :
    let after := fun instances : List MongoInstance =>
      MongoHandler.getAllData clock { mapMongoInstances := instances } stats
    (after instances).1.mapAllData.keys.Nodup ∧
    (∀ rowId vi, (after instances).1.mapAllData.lookup rowId = some vi ↔
      ∃ mi ∈ instances, mi.Connected ∧ mi.Stores rowId vi) ∧
    (∀ instances', Rearranged instances instances' →
      (∀ rowId, (after instances).1.mapAllData.lookup rowId =
        (after instances').1.mapAllData.lookup rowId) ∧
      ∀ k, (after instances).2.lookup k = (after instances').2.lookup k) ∧
    (∀ r, Replicated r instances → (instances.countP fun mi => ¬ mi.Connected) < r →
      (∀ rowId, (after instances).1.mapAllData.lookup rowId =
        (after (instances.map MongoInstance.restored)).1.mapAllData.lookup rowId) ∧
      ∀ k, (after instances).2.lookup k =
        (after (instances.map MongoInstance.restored)).2.lookup k) := by
  -- the statistics see the map through its lookups only
  refine ⟨AList.keys_nodup _, fun rowId vi => lookup_collected hwf hcons, ?_, ?_⟩
  · intro instances' h
    have hlook := lookup_collected_rearranged hwf hcons h
    exact ⟨hlook, Statistics.lookup_calculateAll_congr hlook clock stats⟩
  · intro r hcopies hfail
    have hlook := lookup_collected_restored hwf hcons hcopies hfail
    exact ⟨hlook, Statistics.lookup_calculateAll_congr hlook clock stats⟩

end

namespace Sample

/-- A vote as the servlet lets it be stored. -/
def vote (rowId : String) (candidate constituency : Int32) : Document :=
  { rowId := some (.string rowId), pesel := some (.string "90010112345"),
    vote := some (.int32 candidate), constituency := some (.int32 constituency),
    gender := some (.int32 1), education := some (.int32 2) }

/-- A vote without a candidate. -/
def blank (rowId : String) : Document := { vote rowId 0 1 with vote := none }

/-- Two votes on two of three instances each; the cursor of the second instance fails after
    the first document. -/
def replicas : List MongoInstance :=
  [{ documents := [vote "a" 1 1, vote "b" 2 1] },
   { documents := [vote "b" 2 1], cursorFailsAfter := some 1 },
   { documents := [vote "a" 1 1] }]

end Sample


/-- With one failure and two copies of every vote the statistics are those of all three
    instances, whose candidates have one vote each. -/
theorem replicas_are_counted_once_sample :
    (∀ k, (MongoHandler.getAllData Sample.clock
          { mapMongoInstances := Sample.replicas } {}).2.lookup k =
        (MongoHandler.getAllData Sample.clock
          { mapMongoInstances := Sample.replicas.map MongoInstance.restored } {}).2.lookup k) ∧
      (MongoHandler.getAllData Sample.clock
        { mapMongoInstances := Sample.replicas } {}).2.lookup (.candidate 1) = some 1 := by
  refine ⟨?_, by decide⟩
  exact ((replicas_are_counted_once (show WellFormed Sample.replicas by decide) (by decide)
    Sample.clock {}).2.2.2 2 (by decide) (by decide)).2

/-! ### Malformed documents -/

/-- The vote with this row id is in `mapAllData`, with the fields of one of its copies, and
    it is counted once in its classes, on top of the other votes. -/
def KeptOnce (instances : List MongoInstance) (clock : Option String → Clock)
    (stats : Statistics) (rowId : Option String) : Prop :=
  let after := MongoHandler.getAllData clock { mapMongoInstances := instances } stats
  ∃ vi, after.1.mapAllData.lookup rowId = some vi ∧
    (∃ mi ∈ instances, mi.Connected ∧ mi.Stores rowId vi) ∧
    ∀ k, after.2.lookup k =
      counted (if vi.inClass stats.toDictionary (clock rowId) k then 1 else 0)
        ((stats.calculateAll clock (after.1.mapAllData.erase rowId)).lookup k)

theorem keptOnce_iff {instances : List MongoInstance} {clock : Option String → Clock}
    {stats : Statistics} {rowId : Option String} :
    KeptOnce instances clock stats rowId ↔
      ((collected instances).lookup rowId).isSome = true := by
  constructor
  · rintro ⟨vi, hvi, -⟩
    exact Option.isSome_iff_exists.mpr ⟨vi, hvi⟩
  · intro h
    obtain ⟨vi, hvi⟩ := Option.isSome_iff_exists.mp h
    obtain ⟨mi, hmi, hdel, hst⟩ := exists_of_lookup_collected hvi
    refine ⟨vi, hvi, ⟨mi, hmi, hdel.1, hst⟩, fun k => ?_⟩
    -- the vote is one entry of the map that the loop counts
    rw [stats_getAllData, mapAllData_getAllData, Statistics.lookup_calculateAll,
      Statistics.lookup_calculateAll, VoteMap.classCount_eq_add_erase hvi, counted_add]

/-- **When good votes get through.**  Every readable vote with a row id on an instance whose
    driver delivers it is collected and counted once, exactly if each such vote has a copy
    on an instance that has no malformed document. -/
theorem good_votes_kept_iff (instances : List MongoInstance) (clock : Option String → Clock)
    (stats : Statistics) :
    (∀ mi ∈ instances, mi.Connected → ∀ rowId, mi.holds (some rowId) = true →
      KeptOnce instances clock stats (some rowId)) ↔
    ∀ mi ∈ instances, mi.Connected → ∀ rowId, mi.holds (some rowId) = true →
      ∃ mi' ∈ instances, mi'.Connected ∧ mi'.holds (some rowId) = true ∧
        ∀ d ∈ mi'.documents, ¬ Malformed d := by
  refine forall_congr' fun mi => forall_congr' fun _ => forall_congr' fun _ =>
    forall_congr' fun rowId => forall_congr' fun _ => ?_
  rw [keptOnce_iff, isSome_lookup_collected]
  refine exists_congr fun mi' => and_congr_right fun _ => ?_
  rw [MongoInstance.holds_iff]
  exact ⟨fun ⟨hdel, hst⟩ => ⟨hdel.1, hst, hdel.2⟩, fun ⟨hconn, hst, hwf⟩ => ⟨⟨hconn, hwf⟩, hst⟩⟩

/-- Two instances with copies of the same vote and of the same blank document. -/
def Sample.spoiled : List MongoInstance :=
  [{ documents := [vote "a" 1 1, blank "b"] }, { documents := [blank "b", vote "a" 1 1] }]

/-- Both copies of the vote are lost with the cursors that the blank document ends. -/
theorem blank_document_loses_vote :
    ¬ ∀ mi ∈ Sample.spoiled, mi.Connected → ∀ rowId, mi.holds (some rowId) = true →
      KeptOnce Sample.spoiled Sample.clock {} (some rowId) := by
  intro h
  have hkept := keptOnce_iff.mp
    (h _ (List.mem_cons_self ..) (by decide) "a" (by decide))
  exact absurd hkept (by decide)

end RsoVoting.Aggregator
