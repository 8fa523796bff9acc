import RsoVoting.TwoPhase.Refinement
import RsoVoting.Aggregator.Replicas
import Mathlib.Data.List.Count

namespace RsoVoting.EndToEnd

open RsoVoting RsoVoting.Runs RsoVoting.Interleave RsoVoting.TwoPhase RsoVoting.Aggregator

/-!
# From the posts to the counts

The servlet stores what is posted by two-phase commits over the hosts of `MONGO_HOSTS`; the
aggregator reads the collections of the same hosts and counts.  The two programs share
nothing but the collections, and the aggregator reads them one after the other while the
servlet goes on.

* `Post` / `Posts` — the posts to a servlet, with the UUIDs it makes for them;
* `Post.votes` — what the aggregator makes of the documents of a post;
* `Snapshot` / `Reading` — what the aggregator finds: each collection at a time of its own;
* `accepted_votes_are_collected` — it collects every vote of a post that had been answered ok,
  whichever instances fail or hold a document that it cannot read, as long as they are fewer
  than the redundancy, and nothing that has not been posted;
* `counts_between` — so every count is between those of the accepted and of all posts;
* `stored_once` — no host ever holds two copies of a vote.
-/

/-! ### Posts -/

/-- A post: the votes of its body, and the UUIDs that the servlet makes for it. -/
structure Post where
  txId : String
  rowIds : ℕ → String
  jsonVotes : List Document

namespace Post

/-- The documents that are stored for it. -/
def documents (p : Post) : List Document :=
  p.jsonVotes.mapIdx fun k voteObj => MainServlet.withIds p.txId (p.rowIds k) voteObj

/-- What the aggregator makes of them: the votes by their row ids. -/
def votes (p : Post) : List (Option String × VoteInfo) := votesOf p.documents

/-- The number of its votes in a class. -/
def count (d : Dictionary) (clock : Option String → Clock) (k : ResultKey) (p : Post) : ℕ :=
  p.votes.countP fun e => e.2.inClass d (clock e.1) k

/-- The `k`-th document has the `k`-th row id, and the id of the transaction. -/
theorem mem_documents {p : Post} {d : Document} :
    d ∈ p.documents ↔ ∃ k voteObj, p.jsonVotes[k]? = some voteObj ∧
      d = MainServlet.withIds p.txId (p.rowIds k) voteObj := by
  unfold documents
  rw [List.mem_mapIdx]
  constructor
  · rintro ⟨k, hk, rfl⟩
    exact ⟨k, _, List.getElem?_eq_getElem hk, rfl⟩
  · rintro ⟨k, voteObj, hk, rfl⟩
    obtain ⟨hlt, rfl⟩ := List.getElem?_eq_some_iff.mp hk
    exact ⟨k, hlt, rfl⟩

end Post

/-- The callback reads the row id as it is. -/
theorem rowId_of_readVote {d : Document} {r : String} {rowId : Option String} {vi : VoteInfo}
    (hd : d.rowId = some (.string r)) (h : readVote d = .ok (rowId, vi)) : rowId = some r := by
  have hget : getString d.rowId = .ok (some r) := by rw [hd]; rfl
  unfold readVote at h
  rw [hget] at h
  cases hp : getString d.pesel <;> cases hv : getInteger d.vote >>= unbox <;>
    cases hc : getInteger d.constituency >>= unbox <;>
    cases hg : getInteger d.gender >>= unbox <;>
    cases he : getInteger d.education >>= unbox <;>
    simp_all [bind, Except.bind, pure, Except.pure]

theorem Post.exists_of_mem_votes {p : Post} {rowId : Option String} {vi : VoteInfo}
    (h : (rowId, vi) ∈ p.votes) : ∃ k, rowId = some (p.rowIds k) := by
  obtain ⟨d, hd, hread⟩ := mem_votesOf.mp h
  obtain ⟨k, voteObj, -, rfl⟩ := mem_documents.mp hd
  exact ⟨k, rowId_of_readVote rfl hread⟩

/-- The posts to a servlet over distinct hosts; no UUID is made twice. -/
structure Posts (H ι : Type) where
  hosts : List H
  redundancy : ℕ
  post : ι → Post
  nodup_hosts : hosts.Nodup
  txId_unique : ∀ t u, (post t).txId = (post u).txId → t = u
  rowId_unique : ∀ t u j k, (post t).rowIds j = (post u).rowIds k → t = u ∧ j = k

/-- The transactions of all posts, with the collections of the hosts. -/
abbrev Servlet (H ι : Type) := (ι → Tx) × (H → List Document)

namespace Posts

variable {H ι : Type}

/-- The transaction of a post. -/
def cfg (P : Posts H ι) (t : ι) : Transaction H :=
  MainServlet.run2pc P.hosts P.redundancy (P.post t).txId (P.post t).rowIds (P.post t).jsonVotes

@[simp] theorem documents_cfg (P : Posts H ι) (t : ι) :
    (P.cfg t).documents = (P.post t).documents := rfl

/-- The votes of some posts. -/
def votes (P : Posts H ι) (ts : List ι) : List (Option String × VoteInfo) :=
  ts.flatMap fun t => (P.post t).votes

/-- The number of their votes in a class. -/
def count (P : Posts H ι) (d : Dictionary) (clock : Option String → Clock) (k : ResultKey)
    (ts : List ι) : ℕ :=
  (ts.map fun t => (P.post t).count d clock k).sum

variable (P : Posts H ι)

/-- The documents of a post have distinct row ids. -/
theorem pairwise_documents (t : ι) :
    (P.post t).documents.Pairwise fun d d' => d.rowId ≠ d'.rowId := by
  rw [List.pairwise_iff_getElem]
  intro j k hj hk hlt heq
  simp only [Post.documents, List.getElem_mapIdx, MainServlet.withIds, Option.some.injEq,
    BsonValue.string.injEq] at heq
  have hjk := (P.rowId_unique t t j k heq).2
  omega

/-- So do its votes. -/
theorem nodup_post (t : ι) : ((P.post t).votes.map Prod.fst).Nodup := by
  have hread : ∀ {d e}, (readVote d).toOption = some e → readVote d = .ok e := by
    intro d e h
    cases hd : readVote d <;> simp_all [Except.toOption]
  rw [List.Nodup, List.pairwise_map, Post.votes, votesOf, List.pairwise_filterMap]
  refine (P.pairwise_documents t).imp_of_mem fun hd hd' hne e he e' he' heq => hne ?_
  -- documents that are read with one row id have it
  obtain ⟨j, _, -, rfl⟩ := Post.mem_documents.mp hd
  obtain ⟨k, _, -, rfl⟩ := Post.mem_documents.mp hd'
  have hj := rowId_of_readVote rfl (hread he)
  have hk := rowId_of_readVote rfl (hread he')
  have hrow := Option.some.inj (hj.symm.trans (heq.trans hk))
  show some (BsonValue.string _) = some (BsonValue.string _)
  rw [hrow]

/-- And those of several posts. -/
theorem nodup_votes {ts : List ι} (hnd : ts.Nodup) : ((P.votes ts).map Prod.fst).Nodup := by
  rw [votes, List.map_flatMap, List.nodup_flatMap]
  refine ⟨fun t _ => P.nodup_post t, hnd.imp fun hne => ?_⟩
  intro rowId ht hu
  obtain ⟨⟨_, vi⟩, he, rfl⟩ := List.mem_map.mp ht
  obtain ⟨⟨_, vi'⟩, he', heq⟩ := List.mem_map.mp hu
  obtain ⟨j, hj⟩ := Post.exists_of_mem_votes he
  obtain ⟨k, hk⟩ := Post.exists_of_mem_votes he'
  apply hne
  exact (P.rowId_unique _ _ j k (Option.some.inj (hj.symm.trans (heq.symm.trans hk)))).1

/-- The votes of some posts in a class are those of each of them. -/
theorem countP_votes (ts : List ι) (d : Dictionary) (clock : Option String → Clock)
    (k : ResultKey) :
    (P.votes ts).countP (fun e => e.2.inClass d (clock e.1) k) = P.count d clock k ts := by
  rw [votes, List.countP_flatMap]
  rfl

/-! ### What the collections hold -/

variable [DecidableEq H] [DecidableEq ι]

/-- The servlet starts over empty collections. -/
def start : Servlet H ι := startAll P.cfg fun _ => []

/-- The transactions run at the same time. -/
def step : Servlet H ι → ι × Tx.Action → Option (Servlet H ι) := concurrently P.cfg

/-- A step is one of one transaction. -/
theorem step_eq_some {txs txs' : ι → Tx} {vs vs' : H → List Document} {u : ι} {a : Tx.Action} :
    P.step (txs, vs) (u, a) = some (txs', vs') ↔
      ∃ tx, Tx.step (P.cfg u) (txs u) vs a = some (tx, vs') ∧
        txs' = Function.update txs u tx := by
  unfold step concurrently
  exact interleave_eq_some

omit [DecidableEq H] [DecidableEq ι] in
theorem txId_injective : Function.Injective fun t => (P.cfg t).txId :=
  fun t u h => P.txId_unique t u h

end Posts

/-- The post has been answered with `ok`. -/
def Accepted {H ι : Type} (s : Servlet H ι) (t : ι) : Prop := Answered (s.1 t, s.2) .ok

/-- A step of a connection stores documents of its own transaction only. -/
theorem mem_of_rule {txId : String} {documents : List Document} {c c' : TwoPhase.Connection}
    {votes votes' : List Document} {a : TwoPhase.Connection.ConnAction}
    (h : c.Rule txId documents votes a c' votes') (hp : c.Payload txId documents)
    {d : Document} (hd : d ∈ votes') : d ∈ votes ∨ d ∈ documents := by
  cases h with
  | @storeNext k op doc hop hdoc =>
    refine (List.mem_append.mp hd).imp_right fun hd => ?_
    obtain rfl := List.mem_singleton.mp hd
    exact (hp.inserts op (List.mem_of_getElem? hop)).1 ▸ List.mem_of_getElem? hdoc
  | applyDelete => exact .inl (List.mem_of_mem_filter hd)
  | _ => exact .inl hd

namespace Posts

variable {H ι : Type} (P : Posts H ι) [DecidableEq H] [DecidableEq ι] {s s' : Servlet H ι}
  {as : List (ι × Tx.Action)}

/-- Every document in a collection is one of a post that has taken a step. -/
theorem mem_of_run {ts : List ι} (hts : ∀ a ∈ as, a.1 ∈ ts)
    (hrun : run P.step P.start as = some s) {host : H} {d : Document} (hd : d ∈ s.2 host) :
    ∃ t ∈ ts, d ∈ (P.post t).documents := by
  refine (run_invariant_along
    (I := fun s : Servlet H ι => (∀ u, Invariant (P.cfg u) (s.1 u)) ∧
      ∀ host, ∀ d ∈ s.2 host, ∃ t ∈ ts, d ∈ (P.post t).documents)
    ?_ ⟨fun u => .init _, by simp [start, startAll]⟩ (along_of_forall_mem hts _) hrun).2 host d hd
  rintro ⟨txs, vs⟩ ⟨u, a⟩ ⟨txs', vs'⟩ ⟨hinv, hdocs⟩ hu h
  obtain ⟨tx, hstep, rfl⟩ := P.step_eq_some.mp h
  refine ⟨(Function.forall_update_iff txs fun v tx => Invariant (P.cfg v) tx).mpr
    ⟨(hinv u).step hstep, fun v _ => hinv v⟩, fun host d hd => ?_⟩
  cases a with
  | coordinator shuffled =>
    obtain ⟨-, rfl⟩ := Tx.advance_of_step hstep
    exact hdocs host d hd
  | connection i a =>
    obtain ⟨host', c, votes', -, -, hrule, rfl, rfl⟩ := Tx.connection_of_step hstep
    dsimp only at hd
    by_cases hh : host = host'
    · subst hh
      rw [Function.update_self] at hd
      rcases mem_of_rule hrule ((hinv u).sound i).payload hd with hd | hd
      · exact hdocs host d hd
      · exact ⟨u, hu, hd⟩
    · rw [Function.update_of_ne hh] at hd
      exact hdocs host d hd

/-- The history of a post. -/
theorem sound_entry (hrun : run P.step P.start as = some s) (t : ι) :
    Replication.Sound (P.cfg t).job (entry (P.cfg t) (s.1 t, s.2)) :=
  Replication.sound_of_steps
    (entry_history P.txId_injective (fun _ => P.nodup_hosts) (fun _ _ => rfl) hrun t)

/-- **An accepted post is on as many hosts as the redundancy asks for**, whatever the other
    posts do, then and later. -/
theorem holders_of_accepted (hrun : run P.step P.start as = some s) {t : ι}
    (hok : Accepted s t) :
    ∃ holders : List H, holders.Nodup ∧ holders.length = P.redundancy ∧
      (∀ host ∈ holders, host ∈ P.hosts) ∧
      ∀ later s', run P.step s later = some s' →
        ∀ host ∈ holders, ∀ d ∈ (P.post t).documents, d ∈ s'.2 host := by
  have hsound := P.sound_entry hrun t
  obtain ⟨holders, hchosen, hall⟩ := hsound.complete (Coordinator.phase_eq_accepted.mpr hok)
  obtain ⟨hnd, hlength, hsub⟩ := hsound.chosen holders hchosen
  refine ⟨holders, hnd, hlength, fun host hhost => hsub hhost, ?_⟩
  intro later s' hlater host hhost d hd
  have hsame := entry_eq_of_ok P.txId_injective (fun _ => P.nodup_hosts) (fun _ _ => rfl) hrun
    hlater hok
  have hheld : ofTx (P.cfg t).txId (s'.2 host) = (P.post t).documents :=
    (congrFun (congrArg Replication.Entry.held hsame) host).trans (hall host hhost)
  exact List.mem_of_mem_filter (hheld ▸ hd)

/-! ### What the aggregator finds -/

/-- A pass over the collections that begins in the state `s`: every host is read after some
    further steps, and the posts of all steps are among `ts`. -/
structure Snapshot (as : List (ι × Tx.Action)) (s : Servlet H ι) (ts : List ι)
    (instances : H → MongoInstance) : Prop where
  started : ∀ a ∈ as, a.1 ∈ ts
  read : ∀ host ∈ P.hosts, ∃ later s', run P.step s later = some s' ∧
    (∀ a ∈ later, a.1 ∈ ts) ∧ (instances host).documents = s'.2 host

/-- A pass in which fewer instances fail than the redundancy asks for, be it that they are down
    or that one of their documents cannot be read. -/
structure Reading (as : List (ι × Tx.Action)) (s : Servlet H ι) (ts : List ι)
    (instances : H → MongoInstance) : Prop extends P.Snapshot as s ts instances where
  few_fail : (P.hosts.countP fun host => ¬(instances host).Delivers) < P.redundancy

omit [DecidableEq H] [DecidableEq ι] in
/-- Among enough hosts there is one whose instance is read to the end. -/
theorem exists_delivers {holders : List H} {instances : H → MongoInstance}
    (hnd : holders.Nodup) (hsub : ∀ host ∈ holders, host ∈ P.hosts)
    (hfew : (P.hosts.countP fun host => ¬(instances host).Delivers) < holders.length) :
    ∃ host ∈ holders, (instances host).Delivers := by
  by_contra hnone
  have hfail : holders ⊆ P.hosts.filter fun host => ¬(instances host).Delivers := by
    intro host hhost
    refine List.mem_filter.mpr ⟨hsub host hhost, decide_eq_true fun hdel => ?_⟩
    exact hnone ⟨host, hhost, hdel⟩
  have hle := (List.subperm_of_subset hnd hfail).length_le
  rw [← List.countP_eq_length_filter] at hle
  omega

section Reading

variable {P} {ts : List ι} {instances : H → MongoInstance}

theorem Snapshot.mem_documents (hR : P.Snapshot as s ts instances)
    (hrun : run P.step P.start as = some s) {mi : MongoInstance}
    (hmi : mi ∈ P.hosts.map instances) {d : Document} (hd : d ∈ mi.documents) :
    ∃ t ∈ ts, d ∈ (P.post t).documents := by
  obtain ⟨host, hhost, rfl⟩ := List.mem_map.mp hmi
  obtain ⟨later, s', hlater, hts, hdocs⟩ := hR.read host hhost
  have hall : ∀ a ∈ as ++ later, a.1 ∈ ts := by
    intro a ha
    exact (List.mem_append.mp ha).elim (hR.started a) (hts a)
  exact P.mem_of_run hall (run_append_eq_some.mpr ⟨s, hrun, hlater⟩) (hdocs ▸ hd)

/-- If every posted vote can be read, an instance that is up is read to the end. -/
theorem Snapshot.delivers (hR : P.Snapshot as s ts instances)
    (hrun : run P.step P.start as = some s)
    (hread : ∀ t ∈ ts, ∀ d ∈ (P.post t).documents, ¬Malformed d) {host : H}
    (hhost : host ∈ P.hosts) (hconn : (instances host).Connected) :
    (instances host).Delivers := by
  refine ⟨hconn, fun d hd => ?_⟩
  obtain ⟨t, ht, hdoc⟩ := hR.mem_documents hrun (List.mem_map_of_mem hhost) hd
  exact hread t ht d hdoc

omit [DecidableEq H] [DecidableEq ι] in
/-- A row id tells the vote that it was made for. -/
theorem eq_of_rowId {t u : ι} {d d' : Document} {rowId : Option String} {vi vi' : VoteInfo}
    (hd : d ∈ (P.post t).documents) (hd' : d' ∈ (P.post u).documents)
    (h : readVote d = .ok (rowId, vi)) (h' : readVote d' = .ok (rowId, vi')) : vi = vi' := by
  obtain ⟨j, voteObj, hj, rfl⟩ := Post.mem_documents.mp hd
  obtain ⟨k, voteObj', hk, rfl⟩ := Post.mem_documents.mp hd'
  have hrow := (rowId_of_readVote rfl h).symm.trans (rowId_of_readVote rfl h')
  obtain ⟨rfl, rfl⟩ := P.rowId_unique t u j k (Option.some.inj hrow)
  obtain rfl := Option.some.inj (hj.symm.trans hk)
  exact (Prod.mk.inj (Except.ok.inj (h.symm.trans h'))).2

/-- So the copies of a row id agree, at whatever time they are read. -/
theorem Snapshot.consistent (hR : P.Snapshot as s ts instances)
    (hrun : run P.step P.start as = some s) : Consistent (P.hosts.map instances) := by
  intro mi hmi mi' hmi' rowId vi vi' hst hst'
  obtain ⟨d, hd, hread⟩ := hst
  obtain ⟨d', hd', hread'⟩ := hst'
  obtain ⟨t, -, ht⟩ := hR.mem_documents hrun hmi hd
  obtain ⟨u, -, hu⟩ := hR.mem_documents hrun hmi' hd'
  exact eq_of_rowId ht hu hread hread'

/-- The aggregator collects posted votes only. -/
theorem Snapshot.posted (hR : P.Snapshot as s ts instances)
    (hrun : run P.step P.start as = some s) {rowId : Option String} {vi : VoteInfo}
    (h : (collected (P.hosts.map instances)).lookup rowId = some vi) :
    ∃ t ∈ ts, (rowId, vi) ∈ (P.post t).votes := by
  obtain ⟨mi, hmi, -, d, hd, hread⟩ := exists_of_lookup_collected h
  obtain ⟨t, ht, hdoc⟩ := hR.mem_documents hrun hmi hd
  exact ⟨t, ht, mem_votesOf.mpr ⟨d, hdoc, hread⟩⟩

/-- And all votes of the posts that have been accepted. -/
theorem Reading.accepted (hR : P.Reading as s ts instances)
    (hrun : run P.step P.start as = some s) {t : ι} (hok : Accepted s t) {rowId : Option String}
    {vi : VoteInfo} (h : (rowId, vi) ∈ (P.post t).votes) :
    (collected (P.hosts.map instances)).lookup rowId = some vi := by
  obtain ⟨d, hd, hread⟩ := mem_votesOf.mp h
  -- one of the hosts that hold the post is read to the end, and still holds it then
  obtain ⟨holders, hnd, hlen, hsub, hholds⟩ := P.holders_of_accepted hrun hok
  obtain ⟨host, hhost, hdel⟩ := P.exists_delivers hnd hsub (hlen ▸ hR.few_fail)
  obtain ⟨later, s', hlater, -, hdocs⟩ := hR.read host (hsub host hhost)
  have hmi : instances host ∈ P.hosts.map instances := List.mem_map_of_mem (hsub host hhost)
  have hst : (instances host).Stores rowId vi := by
    refine ⟨d, ?_, hread⟩
    rw [hdocs]
    exact hholds later s' hlater host hhost d hd
  obtain ⟨vi', hvi'⟩ := Option.isSome_iff_exists.mp
    (isSome_lookup_collected.mpr ⟨_, hmi, hdel, vi, hst⟩)
  -- whatever copy is collected, it has the same fields
  obtain ⟨mi, hmem, -, hst'⟩ := exists_of_lookup_collected hvi'
  rw [hvi', hR.consistent hrun mi hmem _ hmi rowId vi' vi hst' hst]

/-- So it collects at least as many votes of every kind as the accepted posts have. -/
theorem Reading.le_countP (hR : P.Reading as s ts instances)
    (hrun : run P.step P.start as = some s) {accepted : List ι} (hnd : accepted.Nodup)
    (hok : ∀ t ∈ accepted, Accepted s t) (p : (Sigma fun _ : Option String => VoteInfo) → Bool) :
    (P.votes accepted).countP (fun e => p ⟨e.1, e.2⟩) ≤
      (collected (P.hosts.map instances)).entries.countP p := by
  have hsub : Table.Sub (Table.insertAll ∅ (P.votes accepted))
      (collected (P.hosts.map instances)) := by
    intro rowId vi h
    obtain ⟨t, ht, hvote⟩ :=
      List.mem_flatMap.mp ((Table.lookup_insertAll_of_nodup (P.nodup_votes hnd)).mp h)
    exact hR.accepted hrun (hok t ht) hvote
  rw [← Table.countP_insertAll_of_nodup (P.nodup_votes hnd)]
  exact hsub.countP_le p

/-- And at most as many as all posts have. -/
theorem Snapshot.countP_le (hR : P.Snapshot as s ts instances)
    (hrun : run P.step P.start as = some s) (hts : ts.Nodup)
    (p : (Sigma fun _ : Option String => VoteInfo) → Bool) :
    (collected (P.hosts.map instances)).entries.countP p ≤
      (P.votes ts).countP fun e => p ⟨e.1, e.2⟩ := by
  have hsub : Table.Sub (collected (P.hosts.map instances)) (Table.insertAll ∅ (P.votes ts)) := by
    intro rowId vi h
    obtain ⟨t, ht, hvote⟩ := hR.posted hrun h
    apply (Table.lookup_insertAll_of_nodup (P.nodup_votes hts)).mpr
    exact List.mem_flatMap.mpr ⟨t, ht, hvote⟩
  rw [← Table.countP_insertAll_of_nodup (P.nodup_votes hts)]
  exact hsub.countP_le p

end Reading

end Posts

/-- New statistics count the votes that have been collected. -/
theorem toInt_getAllData_new {instances : List MongoInstance} {d : Dictionary}
    {clock : Option String → Clock} {k : ResultKey}
    (hlt : (collected instances).classCount d clock k < 2 ^ 31) :
    ((MongoHandler.getAllData clock { mapMongoInstances := instances }
      { toDictionary := d }).2.lookup k).elim 0 Int32.toInt =
        (collected instances).classCount d clock k := by
  show ((Statistics.calculateAll clock (collected instances) { toDictionary := d }).lookup k).elim
    0 _ = _
  rw [Statistics.lookup_calculateAll, Statistics.lookup_new]
  exact toInt_counted_none hlt

/-! ### The results -/

section Results

variable {H ι : Type} [DecidableEq H] [DecidableEq ι] {P : Posts H ι}
  {as : List (ι × Tx.Action)} {s : Servlet H ι} {ts : List ι} {instances : H → MongoInstance}

/-- **Every accepted vote is collected.**  After every interleaving of any number of posts, a
    pass whose hosts are read while the posts go on, and of which fewer fail than the
    redundancy, collects every vote of every post that had been answered `ok`, with its own
    fields, and nothing that has not been posted. -/
theorem accepted_votes_are_collected (hrun : run P.step P.start as = some s)
    (hR : P.Reading as s ts instances) (clock : Option String → Clock) (stats : Statistics) :
    let map := (MongoHandler.getAllData clock
      { mapMongoInstances := P.hosts.map instances } stats).1.mapAllData
    (∀ t, Accepted s t → ∀ rowId vi, (rowId, vi) ∈ (P.post t).votes →
      map.lookup rowId = some vi) ∧
    ∀ rowId vi, map.lookup rowId = some vi → ∃ t ∈ ts, (rowId, vi) ∈ (P.post t).votes :=
  ⟨fun _ hok _ _ h => hR.accepted hrun hok h, fun _ _ h => hR.posted hrun h⟩

/-- **The counts lie between the accepted and the posted votes.**  Every count of such a pass,
    by new statistics, is at least that of the votes of the accepted posts and at most that of
    the votes of all posts. -/
theorem counts_between (hrun : run P.step P.start as = some s)
    (hR : P.Reading as s ts instances) (hts : ts.Nodup) {accepted : List ι}
    (hnd : accepted.Nodup) (hok : ∀ t ∈ accepted, Accepted s t) (d : Dictionary)
    (clock : Option String → Clock) (k : ResultKey) (hsize : P.count d clock k ts < 2 ^ 31) :
    let stats := (MongoHandler.getAllData clock
      { mapMongoInstances := P.hosts.map instances } { toDictionary := d }).2
    (P.count d clock k accepted : ℤ) ≤ (stats.lookup k).elim 0 Int32.toInt ∧
      (stats.lookup k).elim 0 Int32.toInt ≤ (P.count d clock k ts : ℤ) := by
  have hge := hR.le_countP hrun hnd hok fun e => e.2.inClass d (clock e.1) k
  have hle := hR.countP_le hrun hts fun e => e.2.inClass d (clock e.1) k
  rw [P.countP_votes] at hge hle
  intro stats
  rw [show (stats.lookup k).elim 0 Int32.toInt = _ from toInt_getAllData_new (hle.trans_lt hsize)]
  exact ⟨Int.ofNat_le.mpr hge, Int.ofNat_le.mpr hle⟩

/-- **No host holds a vote twice.**  After every interleaving of any number of posts, whatever
    is lost, late or failing, the documents of a host have distinct row ids, and those of a
    post are some of its documents, in their order. -/
theorem stored_once (hrun : run P.step P.start as = some s) (host : H) :
    ((s.2 host).map Document.rowId).Nodup ∧
      ∀ t, (ofTx (P.post t).txId (s.2 host)).Sublist (P.post t).documents := by
  refine ⟨?_, fun t => (P.sound_entry hrun t).sublist host⟩
  -- every document is one of a post that has taken a step
  have hdocs : ∀ d ∈ s.2 host, ∃ t k voteObj, (P.post t).jsonVotes[k]? = some voteObj ∧
      d = MainServlet.withIds (P.post t).txId ((P.post t).rowIds k) voteObj := by
    intro d hd
    have hts : ∀ a ∈ as, a.1 ∈ as.map Prod.fst := fun a ha => List.mem_map_of_mem ha
    obtain ⟨t, -, hdoc⟩ := P.mem_of_run hts hrun hd
    obtain ⟨k, voteObj, hk⟩ := Post.mem_documents.mp hdoc
    exact ⟨t, k, voteObj, hk⟩
  apply List.nodup_iff_count_le_one.mpr
  intro r
  by_cases hr : r ∈ (s.2 host).map Document.rowId
  · obtain ⟨d, hd, rfl⟩ := List.mem_map.mp hr
    obtain ⟨t, k, voteObj, hk, rfl⟩ := hdocs d hd
    -- all documents with its row id are of the same post
    have hsame : ∀ d' ∈ s.2 host, d'.rowId = some (.string ((P.post t).rowIds k)) →
        d'.txId = some (.string (P.post t).txId) := by
      intro d' hd' hrow
      obtain ⟨u, j, voteObj', -, rfl⟩ := hdocs d' hd'
      obtain ⟨rfl, -⟩ := P.rowId_unique u t j k
        (BsonValue.string.inj (Option.some.inj hrow))
      rfl
    have hcount : ∀ docs : List Document,
        (docs.map Document.rowId).count (some (.string ((P.post t).rowIds k))) =
          docs.countP fun d' => d'.rowId = some (.string ((P.post t).rowIds k)) := by
      intro docs
      rw [List.count_eq_countP, List.countP_map]
      exact List.countP_congr fun d' _ => by simp
    have hnd : ((P.post t).documents.map Document.rowId).Nodup :=
      List.pairwise_map.mpr (P.pairwise_documents t)
    calc ((s.2 host).map Document.rowId).count (some (.string ((P.post t).rowIds k)))
        = (ofTx (P.post t).txId (s.2 host)).countP fun d' =>
            d'.rowId = some (.string ((P.post t).rowIds k)) := by
          rw [hcount, ofTx, List.countP_filter]
          apply List.countP_congr
          intro d' hd'
          simpa using hsame d' hd'
      _ ≤ (P.post t).documents.countP fun d' =>
            d'.rowId = some (.string ((P.post t).rowIds k)) :=
          ((P.sound_entry hrun t).sublist host).countP_le
      _ ≤ 1 := by
          rw [← hcount]
          exact List.nodup_iff_count_le_one.mp hnd _
  · exact (List.count_eq_zero.mpr hr).le.trans (Nat.zero_le 1)

end Results

/-! ### A sample run

Two posts over two hosts, each stored at both: the first one is answered `ok` while the second
one has only collected its votes, and the second host is down when the aggregator reads.
-/

namespace Sample

/-- A vote as it is posted. -/
def voteObj (candidate : Int32) : Document where
  pesel := some (.string "90010112345")
  vote := some (.int32 candidate)
  constituency := some (.int32 1)
  gender := some (.int32 1)
  education := some (.int32 2)

/-- The first post has two votes, the second one has one. -/
def post (first : Bool) : Post where
  txId := if first then "t" else "u"
  rowIds := fun k => String.ofList ((if first then 't' else 'u') :: List.replicate k '0')
  jsonVotes := if first then [voteObj 1, voteObj 2] else [voteObj 1]

def posts : Posts ℕ Bool where
  hosts := [10, 20]
  redundancy := 2
  post := post
  nodup_hosts := by decide
  txId_unique := by decide
  rowId_unique := by
    intro t u j k h
    obtain ⟨hhead, htail⟩ := List.cons.inj (String.ofList_injective h)
    have hlen := congrArg List.length htail
    rw [List.length_replicate, List.length_replicate] at hlen
    cases t <;> cases u <;> simp_all

/-- Both hosts store the two votes of the first post. -/
def commits (i : ℕ) : List Tx.Action :=
  TwoPhase.Sample.onHost i [.handleRequest, .receiveCommand, .mongo (.storeNext 0),
    .mongo (.storeNext 0), .mongo (.insertCompletes 0 true), .receiveReply]

/-- Both posts are voted for, then the first one commits. -/
def firstAccepted : List (Bool × Tx.Action) :=
  [(true, .coordinator [0, 1]), (false, .coordinator [1, 0])] ++
  (TwoPhase.Sample.votes 0 ++ TwoPhase.Sample.votes 1).map (true, ·) ++
  (TwoPhase.Sample.votes 0 ++ TwoPhase.Sample.votes 1).map (false, ·) ++
  [(true, .coordinator []), (true, .coordinator [])] ++
  (commits 0 ++ commits 1).map (true, ·) ++ [(true, .coordinator [])]

theorem run_firstAccepted : ∃ s, run posts.step posts.start firstAccepted = some s ∧
    Accepted s true := by
  have hok : (run posts.step posts.start firstAccepted).map (fun s => (s.1 true).coord) =
      some (.done (some [0, 1]) .ok) := by decide
  obtain ⟨s, hs, hcoord⟩ := Option.map_eq_some_iff.mp hok
  exact ⟨s, hs, _, hcoord⟩

/-- The instances, of which the second one is down. -/
def instances (s : Servlet ℕ Bool) (host : ℕ) : MongoInstance where
  documents := s.2 host
  ping := host = 10

theorem snapshot (s : Servlet ℕ Bool) :
    posts.Snapshot firstAccepted s [true, false] (instances s) where
  started := by decide
  read := fun host _ => ⟨[], s, rfl, by simp, rfl⟩

theorem reading {s : Servlet ℕ Bool} (hrun : run posts.step posts.start firstAccepted = some s) :
    posts.Reading firstAccepted s [true, false] (instances s) where
  toSnapshot := snapshot s
  few_fail := by
    -- the first host does not fail
    have hdel : (instances s 10).Delivers :=
      (snapshot s).delivers hrun (by decide) (by decide) ⟨rfl, rfl⟩
    exact List.countP_lt_length_iff.mpr ⟨10, by decide, by simpa using hdel⟩

end Sample

/-- In the sample run the two votes of the first post are collected. -/
theorem accepted_votes_are_collected_sample :
    ∃ s, run Sample.posts.step Sample.posts.start Sample.firstAccepted = some s ∧
      ∀ rowId vi, (rowId, vi) ∈ (Sample.post true).votes →
        (MongoHandler.getAllData Aggregator.Sample.clock
          { mapMongoInstances := Sample.posts.hosts.map (Sample.instances s) }
          {}).1.mapAllData.lookup rowId = some vi := by
  obtain ⟨s, hrun, hok⟩ := Sample.run_firstAccepted
  exact ⟨s, hrun, fun rowId vi h =>
    (accepted_votes_are_collected hrun (Sample.reading hrun) Aggregator.Sample.clock {}).1
      true hok rowId vi h⟩

/-- The first host holds no vote twice. -/
theorem stored_once_sample :
    ∃ s, run Sample.posts.step Sample.posts.start Sample.firstAccepted = some s ∧
      ((s.2 10).map Document.rowId).Nodup := by
  obtain ⟨s, hrun, -⟩ := Sample.run_firstAccepted
  exact ⟨s, hrun, (stored_once hrun 10).1⟩

/-- So one or two votes are counted for the first candidate. -/
theorem counts_between_sample :
    ∃ s, run Sample.posts.step Sample.posts.start Sample.firstAccepted = some s ∧
      let stats := (MongoHandler.getAllData Aggregator.Sample.clock
        { mapMongoInstances := Sample.posts.hosts.map (Sample.instances s) } {}).2
      (1 : ℤ) ≤ (stats.lookup (.candidate 1)).elim 0 Int32.toInt ∧
        (stats.lookup (.candidate 1)).elim 0 Int32.toInt ≤ (2 : ℤ) := by
  obtain ⟨s, hrun, hok⟩ := Sample.run_firstAccepted
  have haccepted : ∀ t ∈ [true], Accepted s t := by
    intro t ht
    rw [List.mem_singleton.mp ht]
    exact hok
  have hlow : Sample.posts.count {} Aggregator.Sample.clock (.candidate 1) [true] = 1 := by
    decide
  have hhigh : Sample.posts.count {} Aggregator.Sample.clock (.candidate 1) [true, false] = 2 := by
    decide
  have hbounds := counts_between hrun (Sample.reading hrun) (by decide) (by decide) haccepted {}
    Aggregator.Sample.clock (.candidate 1) (by rw [hhigh]; decide)
  rw [hlow, hhigh] at hbounds
  exact ⟨s, hrun, hbounds⟩

end RsoVoting.EndToEnd
