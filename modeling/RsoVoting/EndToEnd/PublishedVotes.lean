import RsoVoting.EndToEnd.PostedVotes
import RsoVoting.Aggregator.Ledger
import Mathlib.Algebra.Order.Group.Nat

namespace RsoVoting.EndToEnd

open RsoVoting RsoVoting.Runs RsoVoting.TwoPhase RsoVoting.Aggregator

/-!
# From the posts to the published rows

An aggregator goes over the hosts of the servlet again and again while votes are posted, and
writes what it has counted to the results databases.  This file follows a vote from the
answer to its post to the row of its candidate:

* `Posts.Visits` — a pass over the hosts, at any time of any run;
* `total_candidate` — a candidate is counted whatever the dictionaries and the clock say;
* `accepted_votes_are_published` — a row that a pass writes has every vote that had been
  accepted before, and at most every posted vote once per pass.
-/

section Published

variable {H ι : Type}

/-- The votes of some posts for a candidate. -/
def Posts.votesFor (P : Posts H ι) (ts : List ι) (candidateId : Int32) : ℕ :=
  (P.votes ts).countP fun e => e.2.vote = candidateId

/-- The votes for a candidate that a pass collects. -/
def collectedFor (pass : Pass) (candidateId : Int32) : ℕ :=
  (collected pass.mongo).entries.countP fun e => e.2.vote = candidateId

/-- **The candidates are counted alike in every pass**, whatever fails in it. -/
theorem total_candidate (agg : RsoAggregator) (passes : List Pass) (c : Int32) :
    agg.total passes (.candidate c) = (passes.map fun pass => collectedFor pass c).sum := by
  induction passes generalizing agg with
  | nil => rfl
  | cons pass passes ih =>
    have hfirst : agg.total [pass] (.candidate c) = collectedFor pass c := by
      rw [RsoAggregator.total, RsoAggregator.ledger, RsoAggregator.ledger, List.append_nil,
        RsoAggregator.entries, VoteMap.countP_counts]
      rfl
    rw [List.map_cons, List.sum_cons, ← ih (agg.init pass), ← hfirst]
    exact agg.total_append _ [pass] passes

variable [DecidableEq H] [DecidableEq ι] {P : Posts H ι} {as : List (ι × Tx.Action)}
  {s : Servlet H ι} {ts : List ι} {instances : H → MongoInstance}

/-- A pass over the hosts, at any time of a run whose posts are among `ts`; any number of its
    instances may fail. -/
def Posts.Visits (P : Posts H ι) (ts : List ι) (pass : Pass) : Prop :=
  ∃ as s instances, run P.step P.start as = some s ∧ P.Snapshot as s ts instances ∧
    pass.mongo = P.hosts.map instances

/-- It collects posted votes only, each of them once. -/
theorem Posts.Visits.collectedFor_le {pass : Pass} (h : P.Visits ts pass) (hts : ts.Nodup)
    (c : Int32) : collectedFor pass c ≤ P.votesFor ts c := by
  obtain ⟨as, s, instances, hrun, hS, hmongo⟩ := h
  rw [collectedFor, hmongo]
  exact hS.countP_le hrun hts fun e => e.2.vote = c

/-- **Every accepted vote is published.**  An aggregator has made any number of passes over
    the hosts, with any failures, when it makes one of which fewer hosts fail than the
    redundancy.  A results database that is up in this pass and does not reject the row of a
    candidate then shows at least the votes for it in all posts that had been answered `ok`
    before the pass, and at most once per pass the votes for it in all posts, whatever the
    database has shown before. -/
theorem accepted_votes_are_published (hrun : run P.step P.start as = some s)
    (hR : P.Reading as s ts instances) (hts : ts.Nodup) {accepted : List ι}
    (hnd : accepted.Nodup) (hok : ∀ t ∈ accepted, Accepted s t)
    {databases : List Database} {before : List Pass} {pass : Pass}
    (hbefore : ∀ pass ∈ before, P.Visits ts pass) (hmongo : pass.mongo = P.hosts.map instances)
    {i : ℕ} {db : Database}
    (hdb : (RsoAggregator.loop { databases } (before ++ [pass])).databases[i]? = some db)
    (hup : (pass.postgres i).reachable = true)
    (hselect : ∀ dictName : DictName, dictName.fault (pass.postgres i) ≠ .statement)
    {c : Int32} (hupsert : (pass.postgres i).upsert (.candidate c) = .none)
    (href : (db.dCandidates.lookup c).isSome = true) (hpos : 0 < P.votesFor accepted c)
    (hsize : (before.length + 1) * P.votesFor ts c < 2 ^ 31) :
    (P.votesFor accepted c : ℤ) ≤ db.value (.candidate c) ∧
      db.value (.candidate c) ≤ ((before.length + 1) * P.votesFor ts c : ℕ) := by
  have hlast : P.votesFor accepted c ≤ collectedFor pass c := by
    rw [collectedFor, hmongo]
    exact hR.le_countP hrun hnd hok fun e => e.2.vote = c
  have hvisits : ∀ pass' ∈ before ++ [pass], P.Visits ts pass' := by
    intro pass' hmem
    rcases List.mem_append.mp hmem with hmem | hmem
    · exact hbefore pass' hmem
    · rw [List.mem_singleton.mp hmem]
      exact ⟨as, s, instances, hrun, hR.toSnapshot, hmongo⟩
  -- the total of all passes
  have htotal : RsoAggregator.total { databases } (before ++ [pass]) (.candidate c) =
      (before.map fun pass => collectedFor pass c).sum + collectedFor pass c := by
    rw [total_candidate, List.map_append, List.sum_append]
    rfl
  have hupper : RsoAggregator.total { databases } (before ++ [pass]) (.candidate c) ≤
      (before.length + 1) * P.votesFor ts c := by
    have hle := List.sum_le_card_nsmul ((before ++ [pass]).map fun pass => collectedFor pass c)
      (P.votesFor ts c) (by
        intro n hn
        obtain ⟨pass', hmem, rfl⟩ := List.mem_map.mp hn
        exact (hvisits pass' hmem).collectedFor_le hts c)
    rwa [List.length_map, List.length_append, ← total_candidate { databases }] at hle
  have hrow := RsoAggregator.lookup_of_pass hdb hup hselect hupsert href (by omega)
  have hvalue : db.value (.candidate c) =
      RsoAggregator.total { databases } (before ++ [pass]) (.candidate c) := by
    rw [Database.value, hrow]
    exact toInt_counted_none (by omega)
  rw [hvalue]
  constructor
  · exact Int.ofNat_le.mpr (by omega)
  · exact Int.ofNat_le.mpr hupper

end Published

namespace Sample

/-- A pass over the hosts of the sample run, in which the results database may be down. -/
def passOver (s : Servlet ℕ Bool) (reachable : Bool) : Pass where
  mongo := posts.hosts.map (instances s)
  postgres := fun _ => { reachable }
  clock := Aggregator.Sample.clock

end Sample

/-- After a pass in which the results database was down, one to four votes are published for
    the first candidate: at least that of the accepted post, at most both in both passes. -/
theorem accepted_votes_are_published_sample :
    ∃ s, run Sample.posts.step Sample.posts.start Sample.firstAccepted = some s ∧
      ∃ db, (RsoAggregator.loop { databases := [Aggregator.Sample.database] }
          [Sample.passOver s false, Sample.passOver s true]).databases[0]? = some db ∧
        (1 : ℤ) ≤ db.value (.candidate 1) ∧ db.value (.candidate 1) ≤ 4 := by
  obtain ⟨s, hrun, hok⟩ := Sample.run_firstAccepted
  have haccepted : ∀ t ∈ [true], Accepted s t := by
    intro t ht
    rw [List.mem_singleton.mp ht]
    exact hok
  have hvisits : ∀ pass ∈ [Sample.passOver s false], Sample.posts.Visits [true, false] pass := by
    intro pass hmem
    rw [List.mem_singleton.mp hmem]
    exact ⟨_, s, _, hrun, Sample.snapshot s, rfl⟩
  obtain ⟨db, hdb, htables⟩ : ∃ db,
      (RsoAggregator.loop { databases := [Aggregator.Sample.database] }
        ([Sample.passOver s false] ++ [Sample.passOver s true])).databases[0]? = some db ∧
        db.toDictTables = Aggregator.Sample.database.toDictTables :=
    RsoAggregator.exists_databases_loop rfl
  have href : (db.dCandidates.lookup 1).isSome = true := by
    rw [htables]
    decide
  have hselect : ∀ dictName : DictName,
      dictName.fault ((Sample.passOver s true).postgres 0) ≠ .statement := by
    intro dictName
    cases dictName <;> simp [Sample.passOver, DictName.fault]
  obtain ⟨hlow, hhigh⟩ := accepted_votes_are_published hrun (Sample.reading hrun) (by decide)
    (by decide) haccepted hvisits rfl hdb rfl hselect rfl href (by decide)
    (show (1 + 1) * Sample.posts.votesFor [true, false] 1 < 2 ^ 31 by decide)
  exact ⟨s, hrun, db, hdb, hlow, hhigh⟩

end RsoVoting.EndToEnd
