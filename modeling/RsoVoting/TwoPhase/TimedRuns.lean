import RsoVoting.TwoPhase.Deadline
import Mathlib.Data.List.Induction

namespace RsoVoting.TwoPhase

open RsoVoting.Runs RsoVoting.Interleave

/-!
# Timed runs are runs of the actors

The timed coordinator answers its promises by delays alone.  This file replays it with the
actors of the connections: a host that is in time handles its messages, a host that is late
leaves them where they are until the ask times out.

* `Connection.Replays` — what the actors of one connection do for an answer;
* `Follows` — the actors' state that goes with a timed state;
* `timed_run_is_run` — every timed run is one of the actors, in which exactly the hosts that
  ever store anything hold documents.
-/

variable {H : Type}

namespace Connection

/-- Steps of one connection and of the collection at its host. -/
def transition (txId : String) (documents : List Document) :
    Connection × List Document → ConnAction → Option (Connection × List Document)
  | (c, votes), a => c.step txId documents votes a

section Replay

variable (txId : String) (documents : List Document)

/-- Steps of the connection, none of which needs the coordinator to have stopped, lead from
    `c` to `c'` and add `stored` to the collection. -/
def Replays (stored : List Document) (c c' : Connection) : Prop :=
  ∃ as, ConnAction.stopChild ∉ as ∧
    ∀ votes, run (transition txId documents) (c, votes) as = some (c', votes ++ stored)

/-- The vote ask has timed out with the message still in the mailbox. -/
def late : Connection where
  voteAsk := .answered .unknownError
  proxy := { inbox := [.vote] }

/-- The agent has kept the documents, and its `VoteOk` has been forwarded. -/
def voted : Connection where
  voteAsk := .answered .voteOk
  proxy := { behaviour := .connected, listener := some .vote }
  agent := { status := .running, documentsToSave := some documents, txId := some txId }

/-- The agent's insert, after it has stored some of the documents. -/
def storing (stored : ℕ) (completed : Option Bool) : DbAgentActor where
  status := .running
  documentsToSave := some documents
  txId := some txId
  inserts := [{ docs := documents, stored, completed }]
  stopRequested := completed.isSome

/-- The agent has stored the documents, and its `Ack` has been forwarded. -/
def committed : Connection where
  voteAsk := .answered .voteOk
  commitAsk := .answered .ack
  proxy := { behaviour := .connected, listener := some .commit }
  agent := storing txId documents documents.length (some true)

/-- A vote in time: the connection is opened, and the agent answers. -/
theorem replays_voted :
    Replays txId documents [] (sendAsk {} .vote) (voted txId documents) := by
  refine ⟨[.handleRequest, .connected, .receiveCommand, .receiveReply], by decide, ?_⟩
  intro votes
  rw [List.append_nil]
  rfl

/-- A vote that takes too long. -/
theorem replays_late : Replays txId documents [] (sendAsk {} .vote) late := by
  refine ⟨[.timeout .vote], by decide, fun votes => ?_⟩
  rw [List.append_nil]
  rfl

/-- The insert stores one document after the other. -/
private theorem run_storeNext (c : Connection) (votes : List Document) (k : ℕ)
    (hk : k ≤ documents.length) :
    run (transition txId documents)
      ({ c with agent := storing txId documents 0 none }, votes)
      (List.replicate k (.mongo (.storeNext 0))) =
      some ({ c with agent := storing txId documents k none }, votes ++ documents.take k) := by
  induction k with
  | zero => simp
  | succ k ih =>
    rw [List.replicate_succ', run_append_eq_some]
    refine ⟨_, ih (by omega), ?_⟩
    -- the `k`-th step stores the `k`-th document
    have hdoc : documents[k]? = some documents[k] := List.getElem?_eq_getElem hk
    have hstep : transition txId documents
        ({ c with agent := storing txId documents k none }, votes ++ documents.take k)
        (.mongo (.storeNext 0)) =
        some ({ c with agent := storing txId documents (k + 1) none },
          votes ++ documents.take k ++ [documents[k]]) := by
      simp [transition, step, DbAgentActor.mongo, storing, hdoc, guard]
    rw [run_cons, hstep, List.append_assoc, List.take_append_getElem]
    rfl

/-- A commit in time: the documents are stored, and the agent acknowledges. -/
theorem replays_committed :
    Replays txId documents documents ((voted txId documents).sendAsk .commit)
      (committed txId documents) := by
  refine ⟨[.handleRequest, .receiveCommand] ++
    (List.replicate documents.length (.mongo (.storeNext 0)) ++
      [.mongo (.insertCompletes 0 true), .receiveReply]), by simp [List.mem_replicate],
    fun votes => ?_⟩
  -- the command reaches the agent, which starts its insert
  let asked : Connection :=
    { voteAsk := .answered .voteOk, commitAsk := .pending,
      proxy := { behaviour := .connected, listener := some .commit } }
  rw [run_append_eq_some]
  refine ⟨({ asked with agent := storing txId documents 0 none }, votes), rfl, ?_⟩
  rw [run_append_eq_some]
  refine ⟨_, run_storeNext txId documents asked votes documents.length le_rfl, ?_⟩
  rw [List.take_length]
  simp [run_cons, transition, step, DbAgentActor.mongo, DbAgentActor.onComplete, storing, guard,
    asked, committed, receiveReply, reply, complete, ask, setAsk, Reply.forward]

end Replay

end Connection

/-! ### Replaying connections inside a transaction -/

section Lift

variable [DecidableEq H] {cfg : Transaction H}

/-- The steps of one connection are steps of the transaction. -/
theorem run_connection {i : ℕ} {host : H} (hhost : cfg.dbHostsConf[i]? = some host)
    {as : List Connection.ConnAction} (has : .stopChild ∉ as) {tx : Tx}
    {votes : H → List Document} {c : Connection} {vs : List Document}
    (hrun : run (Connection.transition cfg.txId cfg.documents) (tx.conn i, votes host) as =
      some (c, vs)) :
    run (transition cfg) (tx, votes) (as.map (.connection i)) =
      some ({ tx with conn := Function.update tx.conn i c }, Function.update votes host vs) := by
  induction as generalizing tx votes with
  | nil =>
    obtain ⟨rfl, rfl⟩ : tx.conn i = c ∧ votes host = vs := by simpa using hrun
    simp
  | cons a as ih =>
    obtain ⟨⟨c', vs'⟩, hstep, hrest⟩ := run_cons_eq_some.mp hrun
    -- only `stopChild` has to wait for the coordinator
    have ha : Tx.permits tx.coord a = true := by
      cases a <;> simp_all [Tx.permits]
    have hstep' : transition cfg (tx, votes) (.connection i a) =
        some ({ tx with conn := Function.update tx.conn i c' },
          Function.update votes host vs') := by
      have hc : (tx.conn i).step cfg.txId cfg.documents (votes host) a = some (c', vs') := hstep
      simp [transition, alone, Tx.step, hhost, ha, hc, guard]
    rw [List.map_cons, run_cons, hstep', Option.bind_some]
    have hrest' : run (transition cfg) ({ tx with conn := Function.update tx.conn i c' },
          Function.update votes host vs') (as.map (.connection i)) =
        some ({ tx with conn := Function.update (Function.update tx.conn i c') i c },
          Function.update (Function.update votes host vs') host vs) :=
      ih (fun h => has (List.mem_cons_of_mem _ h)) (by simpa using hrest)
    simpa using hrest'

/-- Connections of different indices take their steps one after the other.  Each adds the same
    documents to the collection at its host. -/
theorem run_each {hosts : List ℕ} (hnd : hosts.Nodup)
    (hvalid : ∀ i ∈ hosts, i < cfg.dbHostsConf.length) {stored : List Document}
    {acts : ℕ → List Connection.ConnAction} {f : ℕ → Connection} {tx : Tx}
    (hacts : ∀ i ∈ hosts, .stopChild ∉ acts i ∧ ∀ votes,
      run (Connection.transition cfg.txId cfg.documents) (tx.conn i, votes) (acts i) =
        some (f i, votes ++ stored))
    (votes : H → List Document) :
    ∃ votes', run (transition cfg) (tx, votes)
        (hosts.flatMap fun i => (acts i).map (.connection i)) =
        some ({ tx with conn := fun i => if i ∈ hosts then f i else tx.conn i }, votes') ∧
      (stored = [] → votes' = votes) ∧ (∀ host, votes host ⊆ votes' host) ∧
      ∀ i ∈ hosts, ∀ host, cfg.dbHostsConf[i]? = some host → stored ⊆ votes' host := by
  induction hosts generalizing tx votes with
  | nil => exact ⟨votes, by simp, fun _ => rfl, fun _ => List.Subset.refl _, by simp⟩
  | cons i hosts ih =>
    obtain ⟨hi, hnd⟩ := List.nodup_cons.mp hnd
    obtain ⟨has, hrun⟩ := hacts i (by simp)
    have hlt := hvalid i (by simp)
    have hhost : cfg.dbHostsConf[i]? = some cfg.dbHostsConf[i] := List.getElem?_eq_getElem hlt
    have hfirst := run_connection hhost has (hrun (votes cfg.dbHostsConf[i]))
    -- the other connections are still where they were
    have hothers : ∀ j ∈ hosts, .stopChild ∉ acts j ∧ ∀ votes,
        run (Connection.transition cfg.txId cfg.documents)
          (({ tx with conn := Function.update tx.conn i (f i) } : Tx).conn j, votes) (acts j) =
            some (f j, votes ++ stored) := by
      intro j hj
      have hne : j ≠ i := fun h => hi (h ▸ hj)
      simpa [Function.update_of_ne hne] using hacts j (List.mem_cons_of_mem _ hj)
    obtain ⟨votes', hrun', hnone, hkeep, hstored⟩ :=
      ih hnd (fun j hj => hvalid j (List.mem_cons_of_mem _ hj)) hothers
        (Function.update votes cfg.dbHostsConf[i] (votes cfg.dbHostsConf[i] ++ stored))
    -- two connections may lead to one host, whose collection then grows twice
    have hgrow : ∀ host, votes host ⊆ votes' host ∧
        (host = cfg.dbHostsConf[i] → stored ⊆ votes' host) := by
      intro host
      have hk := hkeep host
      by_cases hh : host = cfg.dbHostsConf[i]
      · subst hh
        rw [Function.update_self] at hk
        exact ⟨fun d hd => hk (List.mem_append_left _ hd),
          fun _ d hd => hk (List.mem_append_right _ hd)⟩
      · rw [Function.update_of_ne hh] at hk
        exact ⟨hk, fun h => absurd h hh⟩
    refine ⟨votes', ?_, fun h => ?_, fun host => (hgrow host).1, ?_⟩
    · rw [List.flatMap_cons, run_append_eq_some]
      refine ⟨_, hfirst, ?_⟩
      rw [hrun']
      refine congrArg (fun conn => some (({ tx with conn := conn } : Tx), votes')) ?_
      funext j
      by_cases hj : j = i
      · subst hj
        simp [hi]
      · simp [hj]
    · rw [hnone h, h, List.append_nil, Function.update_eq_self]
    · intro j hj host hhost'
      rcases List.mem_cons.mp hj with rfl | hj
      · exact (hgrow host).2 (Option.some.inj (hhost'.symm.trans hhost))
      · exact hstored j hj host hhost'

/-- So connections that can each be replayed can be replayed together. -/
theorem run_connections {hosts : List ℕ} (hnd : hosts.Nodup)
    (hvalid : ∀ i ∈ hosts, i < cfg.dbHostsConf.length) {stored : List Document}
    (f : ℕ → Connection) {tx : Tx}
    (hreplay : ∀ i ∈ hosts,
      Connection.Replays cfg.txId cfg.documents stored (tx.conn i) (f i))
    (votes : H → List Document) :
    ∃ as votes', run (transition cfg) (tx, votes) as =
        some ({ tx with conn := fun i => if i ∈ hosts then f i else tx.conn i }, votes') ∧
      (∀ host, votes host ⊆ votes' host) ∧
      ∀ i ∈ hosts, ∀ host, cfg.dbHostsConf[i]? = some host → stored ⊆ votes' host := by
  choose! acts hacts using hreplay
  obtain ⟨votes', hrun, -, hkeep, hstored⟩ := run_each hnd hvalid hacts votes
  exact ⟨_, votes', hrun, hkeep, hstored⟩

end Lift

/-! ### Replaying the coordinator -/

/-- What the future sends on its way to a place. -/
def Coordinator.send : Coordinator → (ℕ → Connection) → ℕ → Connection
  | .voting _ _ dbHosts, conn     => Tx.onEach conn dbHosts (·.sendAsk .vote)
  | .committing actors, conn      => Tx.onEach conn actors (·.sendAsk .commit)
  | .rollingBack actors, conn     => Tx.onEach conn actors (·.sendAsk .rollback)
  | .done (some actors) _, conn   => Tx.onEach conn actors (·.tell .poisonPill)
  | .done none _, conn            => conn
  | .selecting _ _, conn          => conn

/-- Where the future goes depends on its place and on the promises alone. -/
theorem Tx.Advance.proceed {minDbsCount : ℕ} {tx tx₁ tx' : Tx} (hcoord₁ : tx₁.coord = tx.coord)
    (hask : ∀ i p, (tx₁.conn i).ask p = (tx.conn i).ask p) (h : tx.Advance minDbsCount tx') :
    ∃ shuffled, tx₁.proceed minDbsCount shuffled =
      some { coord := tx'.coord, conn := tx'.coord.send tx₁.conn } := by
  have hanswered : ∀ hosts p, allAnswered tx₁.conn hosts p = allAnswered tx.conn hosts p := by
    simp [allAnswered, hask]
  have hallAck : ∀ hosts p, allAck tx₁.conn hosts p = allAck tx.conn hosts p := by
    simp [allAck, hask]
  have hvotedOk : ∀ hosts, votedOk tx₁.conn hosts = votedOk tx.conn hosts := by
    intro hosts
    refine List.filter_congr fun i _ => ?_
    have hvote : (tx₁.conn i).voteAsk = (tx.conn i).voteAsk := hask i .vote
    rw [hvote]
  cases h with
  | notEnough hcoord hlt hfew =>
    exact ⟨[], by simp [Tx.proceed, hcoord₁, hcoord, hlt, hfew, Coordinator.send]⟩
  | @startRound potential commiting shuffled hcoord hlt hmany hperm =>
    exact ⟨shuffled, by
      simp [Tx.proceed, hcoord₁, hcoord, hlt, Nat.not_lt.mpr hmany, hperm, Coordinator.send]⟩
  | endRound hcoord hans =>
    exact ⟨[], by
      simp [Tx.proceed, hcoord₁, hcoord, hanswered, hans, hvotedOk, Coordinator.send]⟩
  | sendCommit hcoord hge =>
    exact ⟨[], by simp [Tx.proceed, hcoord₁, hcoord, Nat.not_lt.mpr hge, Coordinator.send]⟩
  | @succeed actors hcoord hack =>
    have hall : allAck tx.conn actors .commit = true :=
      List.all_eq_true.mpr fun i hi => decide_eq_true (hack i hi)
    have hans : allAnswered tx.conn actors .commit = true := by
      refine List.all_eq_true.mpr fun i hi => ?_
      have hi' : (tx.conn i).ask .commit = .answered .ack := hack i hi
      rw [hi']
      rfl
    exact ⟨[], by
      simp [Tx.proceed, hcoord₁, hcoord, hanswered, hans, hallAck, hall, Coordinator.send]⟩
  | startRollback hcoord hans hack =>
    exact ⟨[], by
      simp [Tx.proceed, hcoord₁, hcoord, hanswered, hans, hallAck, hack, Coordinator.send]⟩
  | finishRollback hcoord hans =>
    exact ⟨[], by simp [Tx.proceed, hcoord₁, hcoord, hanswered, hans, Coordinator.send]⟩

/-- The states of a connection between two steps of the coordinator. -/
def Reached (cfg : Transaction H) (c : Connection) : Prop :=
  c = {} ∨ c = .late ∨ c = .voted cfg.txId cfg.documents ∨ c = .committed cfg.txId cfg.documents

theorem Reached.eq_new {cfg : Transaction H} {c : Connection} (h : Reached cfg c)
    (hu : c.voteAsk = .unsent) : c = {} := by
  rcases h with rfl | rfl | rfl | rfl
  · rfl
  all_goals simp [Connection.late, Connection.voted, Connection.committed] at hu

theorem Reached.eq_voted {cfg : Transaction H} {c : Connection} (h : Reached cfg c)
    (hv : c.voteAsk = .answered .voteOk) (hc : c.commitAsk = .unsent) :
    c = .voted cfg.txId cfg.documents := by
  rcases h with rfl | rfl | rfl | rfl
  · simp at hv
  · simp [Connection.late] at hv
  · rfl
  · simp [Connection.committed] at hc

/-- The actors' state that goes with a timed state: the coordinator is at the same place
    with the same promises, and who was asked to commit has stored the documents. -/
structure Follows (cfg : Transaction H) (t : Timed) (s : State H) : Prop where
  coord : s.1.coord = t.tx.coord
  ask : ∀ i p, (s.1.conn i).ask p = (t.tx.conn i).ask p
  reached : t.tx.coord.isDone = false → ∀ i, Reached cfg (s.1.conn i)
  stored : ∀ i host, cfg.dbHostsConf[i]? = some host → (t.tx.conn i).commitAsk ≠ .unsent →
    cfg.documents ⊆ s.2 host

/-- The answer of host `i` to an ask of phase `p`, replayed on its connection `c`. -/
structure Replies (cfg : Transaction H) (d : Delays) (p : Phase) (stored : List Document)
    (c : Connection) (i : ℕ) (c' : Connection) : Prop where
  replays : Connection.Replays cfg.txId cfg.documents stored (c.sendAsk p) c'
  reached : Reached cfg c'
  ask : ∀ q, c'.ask q = if q = p then .answered (d.answer p i) else c.ask q

section Follow

variable {cfg : Transaction H} {d : Delays} {t t' : Timed} {shuffled : List ℕ}

/-- An answered commit ask stays answered. -/
theorem Timely.commitAsk_step (ht : Timely cfg d t.tx) (h : t.step cfg d shuffled = some t')
    {i : ℕ} {m : Message} (hm : (t.tx.conn i).commitAsk = .answered m) :
    (t'.tx.conn i).commitAsk = .answered m := by
  obtain ⟨tx, hadv, rfl⟩ := Timed.advance_of_step h
  refine (Timed.asksMove_await hadv i .commit).2 m ?_
  have hc := ht.coordinated
  cases hadv with
  | notEnough | endRound => exact hm
  | startRound | startRollback =>
    rw [ask_onEach_sendAsk_of_ne (by decide)]
    exact hm
  | sendCommit hcoord =>
    -- nobody has been asked to commit before
    simp only [Coordinated, hcoord] at hc
    have hu : (t.tx.conn i).commitAsk = .unsent := hc.2.2.2.2.2.1 i (by simp)
    rw [hu] at hm
    cases hm
  | succeed | finishRollback =>
    rw [ask_onEach_tell]
    exact hm

variable {s : State H}

theorem Follows.start (cfg : Transaction H) (votes : H → List Document) :
    Follows cfg (Timed.start cfg) (start cfg votes) where
  coord := rfl
  ask _ _ := rfl
  reached _ _ := .inl rfl
  stored _ _ _ h := absurd rfl h

/-- One timed step that awaits nothing: at most messages without a promise are sent. -/
private theorem Follows.of_quiet {tx : Tx} {asks : List (Phase × List ℕ)} (hF : Follows cfg t s)
    (hquiet : tx.coord.awaited = none)
    (hsend : ∀ conn i p, (tx.coord.send conn i).ask p = (conn i).ask p)
    (hconn : tx.conn = tx.coord.send t.tx.conn)
    (hnew : tx.coord.isDone = false → t.tx.coord.isDone = false ∧
      tx.coord.send s.1.conn = s.1.conn) :
    Follows cfg (Timed.await d asks tx)
      ({ coord := tx.coord, conn := tx.coord.send s.1.conn }, s.2) := by
  have hawait : (Timed.await d asks tx).tx = tx := by simp [Timed.await, hquiet]
  refine ⟨by rw [hawait], fun i p => ?_, fun hdone i => ?_, fun i host hhost hcommit => ?_⟩
  · rw [hawait, hconn, hsend, hsend, hF.ask]
  · rw [hawait] at hdone
    obtain ⟨hold, hsame⟩ := hnew hdone
    dsimp only
    rw [hsame]
    exact hF.reached hold i
  · refine hF.stored i host hhost fun hu => hcommit ?_
    have hask : (tx.conn i).commitAsk = (t.tx.conn i).commitAsk := by
      rw [hconn]
      exact hsend t.tx.conn i .commit
    rw [hawait, hask, hu]

/-- A host that is asked to vote is new; it has voted then, or is late. -/
private theorem Follows.replies_vote (hF : Follows cfg t s) (hold : t.tx.coord.isDone = false)
    {i : ℕ} (hu : (t.tx.conn i).voteAsk = .unsent) :
    ∃ c, Replies cfg d .vote [] (s.1.conn i) i c := by
  have hnew : s.1.conn i = {} := (hF.reached hold i).eq_new ((hF.ask i .vote).trans hu)
  rw [hnew]
  by_cases hin : d.inTime i = true
  · have hans := Delays.answer_vote_eq.mpr hin
    refine ⟨_, Connection.replays_voted cfg.txId cfg.documents, .inr (.inr (.inl rfl)), ?_⟩
    intro q
    cases q <;> simp [Connection.voted, Connection.ask, hans]
  · have hans : d.answer .vote i = .unknownError :=
      (d.answer_eq_reply_or .vote i).resolve_left (mt Delays.answer_vote_eq.mp hin)
    refine ⟨_, Connection.replays_late cfg.txId cfg.documents, .inr (.inl rfl), ?_⟩
    intro q
    cases q <;> simp [Connection.late, Connection.ask, hans]

/-- A host that is asked to commit has voted; in time it stores the documents. -/
private theorem Follows.replies_commit (hF : Follows cfg t s)
    (hold : t.tx.coord.isDone = false) {i : ℕ}
    (hv : (t.tx.conn i).voteAsk = .answered .voteOk)
    (hu : (t.tx.conn i).commitAsk = .unsent) (hack : d.answer .commit i = .ack) :
    ∃ c, Replies cfg d .commit cfg.documents (s.1.conn i) i c := by
  have hvoted : s.1.conn i = .voted cfg.txId cfg.documents :=
    (hF.reached hold i).eq_voted ((hF.ask i .vote).trans hv) ((hF.ask i .commit).trans hu)
  rw [hvoted]
  refine ⟨_, Connection.replays_committed cfg.txId cfg.documents, .inr (.inr (.inr rfl)), ?_⟩
  intro q
  cases q <;> simp [Connection.committed, Connection.voted, Connection.ask, hack]

variable [DecidableEq H]

/-- One timed step that asks `hosts` and waits for them: their connections are replayed. -/
private theorem Follows.of_asked {tx : Tx} {asks : List (Phase × List ℕ)} {p : Phase}
    {hosts : List ℕ} {stored : List Document} (hF : Follows cfg t s)
    (haw : tx.coord.awaited = some (p, hosts))
    (hsend : ∀ conn, tx.coord.send conn = Tx.onEach conn hosts (·.sendAsk p))
    (hconn : tx.conn = tx.coord.send t.tx.conn) (hold : t.tx.coord.isDone = false)
    (hnd : hosts.Nodup) (hvalid : ∀ i ∈ hosts, i < cfg.dbHostsConf.length)
    (hreplies : ∀ i ∈ hosts, ∃ c, Replies cfg d p stored (s.1.conn i) i c)
    (hcommit : p = .commit → cfg.documents ⊆ stored) :
    ∃ as s', run (transition cfg) ({ coord := tx.coord, conn := tx.coord.send s.1.conn }, s.2) as =
      some s' ∧ Follows cfg (Timed.await d asks tx) s' := by
  have : Nonempty Connection := ⟨{}⟩
  choose! f hf using hreplies
  have hreplay : ∀ i ∈ hosts, Connection.Replays cfg.txId cfg.documents stored
      (({ coord := tx.coord, conn := tx.coord.send s.1.conn } : Tx).conn i) (f i) := by
    intro i hi
    simpa [hsend, onEach_of_mem hi] using (hf i hi).replays
  obtain ⟨as, votes', hrun, hkeep, hstored⟩ := run_connections hnd hvalid f hreplay s.2
  refine ⟨as, _, hrun, by simp, fun i q => ?_, fun _ i => ?_, fun i host hhost hasked => ?_⟩
  · rw [Timed.ask_await haw, hconn, hsend, hsend]
    by_cases hi : i ∈ hosts
    · simp only [hi, if_true, true_and, onEach_of_mem hi, Connection.ask_sendAsk, (hf i hi).ask,
        hF.ask]
      split <;> rfl
    · simp [hi, onEach_of_notMem hi, hF.ask]
  · by_cases hi : i ∈ hosts
    · simp only [hi, if_true]
      exact (hf i hi).reached
    · simp only [hi, if_false, hsend, onEach_of_notMem hi]
      exact hF.reached hold i
  · by_cases hi : i ∈ hosts ∧ p = .commit
    · obtain ⟨hi, rfl⟩ := hi
      exact fun doc hdoc => hstored i hi host hhost (hcommit rfl hdoc)
    · -- the commit ask of this host is older
      refine fun doc hdoc => hkeep host (hF.stored i host hhost (fun hu => hasked ?_) hdoc)
      have hsame : (tx.conn i).ask .commit = (t.tx.conn i).ask .commit := by
        rw [hconn, hsend]
        by_cases hp : p = .commit
        · rw [onEach_of_notMem fun hmem => hi ⟨hmem, hp⟩]
        · rw [ask_onEach_sendAsk_of_ne fun h => hp h.symm]
      refine (Timed.ask_await haw i .commit).trans ?_
      rw [if_neg fun h => hi ⟨h.1, h.2.symm⟩, hsame]
      exact hu

/-- **Step lemma.**  A timed step after which no commit ask has timed out is a run of the
    actors: the coordinator's step, and then what the asked hosts do. -/
theorem Follows.step (hF : Follows cfg t s) (ht : Timely cfg d t.tx)
    (h : t.step cfg d shuffled = some t')
    (hcommit : ∀ i < cfg.dbHostsConf.length,
      (t'.tx.conn i).commitAsk ≠ .answered .unknownError) :
    ∃ as s', run (transition cfg) s as = some s' ∧ Follows cfg t' s' := by
  have ht' := ht.step h
  obtain ⟨tx, hadv, rfl⟩ := Timed.advance_of_step h
  obtain ⟨drawn, hproceed⟩ := hadv.proceed hF.coord hF.ask
  -- the coordinator's own step comes first
  suffices hrest : ∃ as s', run (transition cfg)
      ({ coord := tx.coord, conn := tx.coord.send s.1.conn }, s.2) as = some s' ∧
      Follows cfg (Timed.await d t.asks tx) s' by
    obtain ⟨as, s', hrun, hF'⟩ := hrest
    refine ⟨.coordinator drawn :: as, s', ?_, hF'⟩
    have hfirst : transition cfg s (.coordinator drawn) =
        some ({ coord := tx.coord, conn := tx.coord.send s.1.conn }, s.2) := by
      rw [transition, alone, Tx.step, hproceed]
      rfl
    rw [run_cons, hfirst]
    exact hrun
  have hc := ht.coordinated
  have hc' := ht'.coordinated
  have hcount' := ht'.counted
  cases hadv with
  | notEnough hcoord =>
    exact ⟨[], _, rfl, hF.of_quiet rfl (fun _ _ _ => rfl) rfl (by simp [Coordinator.isDone])⟩
  | endRound hcoord =>
    refine ⟨[], _, rfl, hF.of_quiet rfl (fun _ _ _ => rfl) rfl fun _ => ⟨?_, rfl⟩⟩
    rw [hcoord]
    rfl
  | succeed hcoord =>
    exact ⟨[], _, rfl, hF.of_quiet rfl (fun _ _ _ => ask_onEach_tell _) rfl
      (by simp [Coordinator.isDone])⟩
  | @startRound potential commiting shuffled hcoord hlt hmany hperm =>
    have hold : t.tx.coord.isDone = false := by rw [hcoord]; rfl
    simp only [Coordinated, hcoord] at hc
    obtain ⟨hnd, hvalid, -, hun, -, -, -⟩ := hc
    -- the hosts of a round are distinct and have not been asked before
    have hdraw : ∀ i ∈ drawHosts shuffled (cfg.minDbsCount - commiting.length),
        i ∈ potential := drawHosts_subset hperm
    have hndDraw := (hperm.nodup_iff.mpr (List.nodup_append.mp hnd).1).sublist
      (List.take_sublist (cfg.minDbsCount - commiting.length) shuffled)
    exact hF.of_asked rfl (fun _ => rfl) rfl hold hndDraw
      (fun i hi => hvalid i (List.mem_append_left _ (hdraw i hi)))
      (fun i hi => hF.replies_vote hold (hun i (hdraw i hi))) (by simp)
  | @sendCommit potential commiting hcoord hge =>
    have hold : t.tx.coord.isDone = false := by rw [hcoord]; rfl
    simp only [Coordinated, hcoord] at hc
    obtain ⟨-, -, -, -, hv, hunsent, -⟩ := hc
    simp only [Coordinated, Timed.await_coord] at hc'
    have hans := ht'.answered .commit commiting (by rw [Timed.await_coord]; rfl)
    -- nobody else has been asked to commit, and no commit ask is to time out
    refine hF.of_asked rfl (fun _ => rfl) rfl hold hc'.1.nodup hc'.1.valid (fun i hi => ?_)
      (fun _ => List.Subset.refl _)
    refine hF.replies_commit hold (hv i hi) (hunsent i (by simp)) ?_
    rcases d.answer_eq_reply_or .commit i with hack | hlate
    · exact hack
    · exact absurd ((hans i hi).trans (by rw [hlate])) (hcommit i (hc'.1.valid i hi))
  | @startRollback actors hcoord | @finishRollback actors hcoord =>
    -- a rollback comes from a commit ask that has timed out
    simp only [Coordinated, Timed.await_coord] at hc'
    simp only [Counted, Timed.await_coord] at hcount'
    obtain ⟨i, hi, hu⟩ := hcount'
    exact absurd hu (hcommit i (hc'.1.valid i hi))

/-- **Run lemma.**  A timed run at whose end no commit ask has timed out is a run of the
    actors. -/
theorem follows_of_run {as : List (List ℕ)} (votes : H → List Document)
    (hrun : run (Timed.step cfg d) (Timed.start cfg) as = some t)
    (hcommit : ∀ i < cfg.dbHostsConf.length,
      (t.tx.conn i).commitAsk ≠ .answered .unknownError) :
    ∃ as' s, run (transition cfg) (start cfg votes) as' = some s ∧ Follows cfg t s := by
  induction as using List.reverseRecOn generalizing t with
  | nil =>
    obtain rfl : Timed.start cfg = t := by simpa using hrun
    exact ⟨[], _, rfl, .start cfg votes⟩
  | append_singleton as a ih =>
    obtain ⟨t₀, hrun₀, hlast⟩ := run_append_eq_some.mp hrun
    have hstep : t₀.step cfg d a = some t := by simpa [run_cons] using hlast
    have ht := timely_of_run hrun₀
    -- a timeout before the last step would still be there after it
    obtain ⟨as', s, hs, hF⟩ := ih hrun₀ fun i hi hu => hcommit i hi (ht.commitAsk_step hstep hu)
    obtain ⟨as'', s', hs', hF'⟩ := hF.step ht hstep hcommit
    exact ⟨as' ++ as'', s', run_append_eq_some.mpr ⟨s, hs, hs'⟩, hF'⟩

end Follow

/-- **Timed runs are runs of the actors.**  For every timed run in which no commit ask times
    out there is a run of the actors over fresh collections that ends with the same answer,
    and in which exactly the hosts that ever store anything hold documents. -/
theorem timed_run_is_run [DecidableEq H] {cfg : Transaction H} (hconf : cfg.dbHostsConf.Nodup)
    {votes : H → List Document} (hfresh : Fresh cfg votes) {d : Delays} {as : List (List ℕ)}
    {t : Timed} (hrun : run (Timed.step cfg d) (Timed.start cfg) as = some t)
    (hcommit : ∀ i < cfg.dbHostsConf.length,
      (t.tx.conn i).commitAsk ≠ .answered .unknownError) :
    ∃ as' s, run (transition cfg) (start cfg votes) as' = some s ∧ s.1.coord = t.tx.coord ∧
      ∀ i host, cfg.dbHostsConf[i]? = some host →
        (t.Stores cfg i ↔ ofTx cfg.txId (s.2 host) ≠ []) := by
  obtain ⟨as', s, hs, hF⟩ := follows_of_run votes hrun hcommit
  refine ⟨as', s, hs, hF.coord, fun i host hhost => ⟨fun ⟨hasked, hdocs⟩ => ?_, fun hheld => ?_⟩⟩
  · obtain ⟨doc, hdoc⟩ := List.exists_mem_of_ne_nil _ hdocs
    have hmem : doc ∈ ofTx cfg.txId (s.2 host) :=
      List.mem_filter.mpr ⟨hF.stored i host hhost hasked hdoc, by simp [cfg.tagged doc hdoc]⟩
    exact List.ne_nil_of_mem hmem
  · have hsound := (invariant_of_run hs).sound i
    have hcontents := stored_of_run hconf hfresh hs i host hhost
    refine ⟨fun hu => hheld ?_, fun hdocs => hheld ?_⟩
    · exact hsound.eq_nil_of_unsent hcontents ((hF.ask i .commit).trans hu)
    · exact List.sublist_nil.mp (hdocs ▸ hcontents.sublist.trans hsound.storedDocs_sublist)

end RsoVoting.TwoPhase
