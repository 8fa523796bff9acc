import RsoVoting.TwoPhase.ConfirmedRollback
import RsoVoting.TwoPhase.TimedRuns

namespace RsoVoting.TwoPhase

open RsoVoting.Runs RsoVoting.Interleave

/-!
# A rollback is confirmed too early

`ConfirmedRollback` follows a confirmed rollback to its end; the coordinator does not wait for
that.  This file shows how little its `rollback` says at the moment when it returns.

* `Connection.Confirming` — a `CommitActor` confirms a rollback without its agent;
* `Attentive` — which every chosen `CommitActor` can do, in every run;
* `confirmable_of_asked` — so whenever a rollback has been asked for, it can be confirmed
  before it has happened at any chosen host;
* `exists_asked` — and a rollback can be asked for wherever a host can be chosen;
* `confirmed_rollback_has_happened_iff` — that a confirmed rollback has happened can be relied
  on exactly where no host can be chosen.
-/

variable {H : Type}

/-! ### A `CommitActor` confirms by itself -/

namespace Connection

variable (txId : String) (documents : List Document) {c : Connection}

/-- The `CommitActor` is connected, and has a `Rollback` to answer or has answered it. -/
structure Confirming (c : Connection) : Prop where
  connected : c.proxy.behaviour = .connected
  poisonPill : Request.poisonPill ∉ c.proxy.inbox
  asked : c.rollbackAsk = .pending ∧ Request.rollback ∈ c.proxy.inbox ∨
    c.rollbackAsk = .answered .ack

/-- So it is when a host that voted ok is asked to roll back. -/
theorem Live.confirming (hc : Live c) (hok : c.voteAsk = .answered .voteOk) :
    Confirming (c.sendAsk .rollback) where
  connected := by simpa using hc.connected hok
  poisonPill := (hc.sendAsk .rollback).poisonPill
  asked := .inl ⟨ask_sendAsk c .rollback .rollback, by simp [Phase.request]⟩

/-- It takes the next message out of its mailbox, which leaves the agent alone. -/
theorem Confirming.handleRequest (hc : Confirming c) {r : Request} {rest : List Request}
    (hinbox : c.proxy.inbox = r :: rest) :
    ∃ c', (∀ votes, transition txId documents (c, votes) .handleRequest = some (c', votes)) ∧
      Confirming c' ∧ c'.proxy.inbox = rest ∧ c'.agent = c.agent := by
  obtain ⟨hcon, hpill, hask⟩ := hc
  have hpill' : Request.poisonPill ∉ rest := fun hmem => hpill (by simp [hinbox, hmem])
  obtain ⟨c', hstep⟩ : ∃ c', ∀ votes,
      c.step txId documents votes .handleRequest = some (c', votes) :=
    ⟨({ c with proxy := { c.proxy with inbox := rest } }).handleRequest r, fun votes => by
      simp [step, hinbox, hcon, guard]⟩
  refine ⟨c', hstep, ?_⟩
  cases rule_of_step (hstep []) with
  | requestVote _ hb => simp [hcon] at hb
  | requestCommit hinbox' =>
    obtain ⟨rfl, rfl⟩ := List.cons.inj (hinbox.symm.trans hinbox')
    exact ⟨⟨rfl, hpill', hask.imp_left fun h => ⟨h.1, by simpa [hinbox] using h.2⟩⟩,
      rfl, rfl⟩
  | @requestRollback rest' hinbox' =>
    obtain ⟨rfl, rfl⟩ := List.cons.inj (hinbox.symm.trans hinbox')
    refine ⟨⟨by simp, by simpa using hpill', .inr ?_⟩, by simp, by simp⟩
    -- the ask is answered together with the command
    rcases hask with ⟨hpend, -⟩ | hack
    · simp [complete, ask, setAsk, hpend]
    · simp [complete, ask, hack]
  | requestPoisonPill hinbox' => exact absurd (by simp [hinbox']) hpill
  | @requestDropped r' rest' hinbox' hb =>
    obtain ⟨rfl, rfl⟩ := List.cons.inj (hinbox.symm.trans hinbox')
    obtain rfl : r = .vote := (hb.resolve_right fun h => h.1 hcon).2
    exact ⟨⟨hcon, hpill', hask.imp_left fun h => ⟨h.1, by simpa [hinbox] using h.2⟩⟩,
      rfl, rfl⟩

/-- **A `CommitActor` confirms a rollback without its agent**, as soon as it has handled the
    messages in its mailbox. -/
theorem Confirming.run (hc : Confirming c) :
    ∃ c', (∀ votes, run (transition txId documents) (c, votes)
        (List.replicate c.proxy.inbox.length .handleRequest) = some (c', votes)) ∧
      c'.rollbackAsk = .answered .ack ∧ c'.agent = c.agent := by
  induction hinbox : c.proxy.inbox generalizing c with
  | nil =>
    refine ⟨c, fun votes => rfl, hc.asked.resolve_left ?_, rfl⟩
    rintro ⟨-, hmem⟩
    simp [hinbox] at hmem
  | cons r rest ih =>
    obtain ⟨c₁, hstep, hc₁, hrest, hagent⟩ := hc.handleRequest txId documents hinbox
    obtain ⟨c', hrun, hack, hagent'⟩ := ih hc₁ hrest
    refine ⟨c', fun votes => ?_, hack, hagent'.trans hagent⟩
    rw [List.length_cons, List.replicate_succ]
    exact run_cons_eq_some.mpr ⟨_, hstep votes, hrun votes⟩

end Connection

/-! ### Every rollback that is asked for can be confirmed early -/

/-- What holds of the `CommitActor`s in every run. -/
structure Attentive (cfg : Transaction H) (tx : Tx) : Prop where
  invariant : Invariant cfg tx
  listening : ∀ i, (tx.conn i).Listening
  live : tx.coord.isDone = false → ∀ i, (tx.conn i).Live

theorem Attentive.init (cfg : Transaction H) : Attentive cfg (Tx.init cfg) where
  invariant := .init cfg
  listening _ := .initial
  live _ _ := ⟨by simp [Tx.init], by simp [Tx.init]⟩

/-- **A confirmed rollback has happened**, in every run: whenever all chosen `CommitActor`s
    have answered `Ack`, so that `rollback` returns without throwing, every agent of theirs
    has received the rollback and its delete has completed with success. -/
def ConfirmedHasHappened [DecidableEq H] (cfg : Transaction H) (votes : H → List Document) :
    Prop :=
  ∀ as s actors, run (transition cfg) (start cfg votes) as = some s →
    s.1.coord = .rollingBack actors → Tx.allAck s.1.conn actors .rollback = true →
      ∀ i ∈ actors, (s.1.conn i).RolledBack cfg.txId

/-- The `CommitActor`s by themselves can confirm the rollback that `s` waits for, before it has
    happened at any chosen host and with all collections as they are. -/
def ConfirmableEarly [DecidableEq H] (cfg : Transaction H) (s : State H) (actors : List ℕ) :
    Prop :=
  ∃ later t, (∀ a ∈ later, ∃ i ∈ actors, a = .connection i .handleRequest) ∧
    run (transition cfg) s later = some t ∧ t.2 = s.2 ∧ t.1.coord = .rollingBack actors ∧
    Tx.allAck t.1.conn actors .rollback = true ∧
    ∀ i ∈ actors, ¬(t.1.conn i).RolledBack cfg.txId

/-- Who takes a step is not done. -/
theorem Tx.Advance.isDone_eq {minDbsCount : ℕ} {tx tx' : Tx} (h : tx.Advance minDbsCount tx') :
    tx.coord.isDone = false := by
  cases h <;> simp [Coordinator.isDone, *]

section Early

variable [DecidableEq H] {cfg : Transaction H} {votes : H → List Document}

/-- **Step lemma.** -/
theorem Attentive.step {s s' : State H} {a : Tx.Action} (hI : Attentive cfg s.1)
    (h : transition cfg s a = some s') : Attentive cfg s'.1 := by
  obtain ⟨tx, votes⟩ := s
  obtain ⟨tx', votes'⟩ := s'
  have hinv : Invariant cfg tx' := hI.invariant.step h
  cases a with
  | coordinator shuffled =>
    have hadv := (Tx.advance_of_step h).1
    have hlive := hI.live hadv.isDone_eq
    refine ⟨hinv, hadv.forall_conn hI.invariant.coordinated hI.listening
      (fun _ p hc _ => hc.sendAsk p) fun _ hc => hc.tell .poisonPill, ?_⟩
    cases hadv with
    | notEnough | succeed | finishRollback => exact fun hd => by simp [Coordinator.isDone] at hd
    | startRound =>
      exact fun _ => forall_onEach (·.sendAsk .vote) hlive fun i _ => (hlive i).sendAsk _
    | sendCommit =>
      exact fun _ => forall_onEach (·.sendAsk .commit) hlive fun i _ => (hlive i).sendAsk _
    | startRollback =>
      exact fun _ => forall_onEach (·.sendAsk .rollback) hlive fun i _ => (hlive i).sendAsk _
    | endRound => exact fun _ => hlive
  | connection k a =>
    obtain ⟨host, c, vs, -, hperm, hrule, rfl, rfl⟩ := Tx.connection_of_step h
    refine ⟨hinv, ?_, fun hd => ?_⟩
    · exact (Function.forall_update_iff tx.conn fun _ c => Connection.Listening c).mpr
        ⟨(hI.listening k).step hrule, fun j _ => hI.listening j⟩
    · have hchild : a ≠ .stopChild := by
        rintro rfl
        simp [Tx.permits, show tx.coord.isDone = false from hd] at hperm
      exact (Function.forall_update_iff tx.conn fun _ c => Connection.Live c).mpr
        ⟨(hI.live hd k).step (hI.listening k) hchild hrule, fun j _ => hI.live hd j⟩

/-- **Run lemma.** -/
theorem attentive_of_run {as : List Tx.Action} {s : State H}
    (hrun : run (transition cfg) (start cfg votes) as = some s) : Attentive cfg s.1 :=
  run_invariant (I := fun s : State H => Attentive cfg s.1) (fun _ _ _ hI h => hI.step h)
    (.init cfg) hrun

/-- **Whenever a rollback has been asked for, it can be confirmed early.** -/
theorem confirmable_of_asked {as : List Tx.Action} {s s' : State H} {shuffled actors : List ℕ}
    (hrun : run (transition cfg) (start cfg votes) as = some s)
    (hcoord : s.1.coord = .committing actors)
    (hstep : transition cfg s (.coordinator shuffled) = some s')
    (hasked : s'.1.coord = .rollingBack actors) : ConfirmableEarly cfg s' actors := by
  obtain ⟨tx, vs⟩ := s
  obtain ⟨tx', vs'⟩ := s'
  have hI : Attentive cfg tx := attentive_of_run hrun
  obtain ⟨hadv, rfl⟩ := Tx.advance_of_step hstep
  have hlive := hI.live hadv.isDone_eq
  obtain ⟨helected, -, hunsent⟩ : Elected tx.conn cfg actors ∧
      AskedOnly tx.conn .commit actors ∧ AskedOnly tx.conn .rollback [] := by
    have hc := hI.invariant.coordinated
    rwa [Coordinated, show tx.coord = .committing actors from hcoord] at hc
  have hconn : tx'.conn = Tx.onEach tx.conn actors (·.sendAsk .rollback) := by
    cases hadv with
    | @startRollback actors' hcoord' =>
      obtain rfl : actors' = actors := Coordinator.rollingBack.inj hasked
      rfl
    | _ => simp at hasked
  -- each of the actors is connected, and its agent has not started a delete
  have hconfirm : ∀ i ∈ actors, ∃ c', (∀ votes,
      run (Connection.transition cfg.txId cfg.documents) (tx'.conn i, votes)
        (List.replicate (tx'.conn i).proxy.inbox.length .handleRequest) = some (c', votes)) ∧
      c'.rollbackAsk = .answered .ack ∧ c'.agent.deletes = [] := by
    intro i hi
    have hci : tx'.conn i = (tx.conn i).sendAsk .rollback := by rw [hconn, onEach_of_mem hi]
    have hnew : (tx'.conn i).Confirming := by
      rw [hci]
      exact (hlive i).confirming (helected.votedOk i hi)
    obtain ⟨c', hrun', hack, hagent⟩ := hnew.run cfg.txId cfg.documents
    refine ⟨c', hrun', hack, ?_⟩
    rw [hagent, hci, Connection.sendAsk_agent]
    exact (hI.invariant.sound i).tokens.deletes_eq_nil (hunsent i (by simp))
  have : Nonempty Connection := ⟨{}⟩
  choose! f hhandled hack hdeletes using hconfirm
  have hacts : ∀ i ∈ actors,
      .stopChild ∉ List.replicate (tx'.conn i).proxy.inbox.length
        Connection.ConnAction.handleRequest ∧
      ∀ votes, run (Connection.transition cfg.txId cfg.documents) (tx'.conn i, votes)
        (List.replicate (tx'.conn i).proxy.inbox.length .handleRequest) =
          some (f i, votes ++ []) := by
    refine fun i hi => ⟨by simp [List.mem_replicate], fun votes => ?_⟩
    rw [List.append_nil]
    exact hhandled i hi votes
  obtain ⟨votes', hrun', hsame, -⟩ := run_each helected.nodup helected.valid hacts vs'
  refine ⟨_, _, ?_, hrun', hsame rfl, hasked, ?_, ?_⟩
  · intro a ha
    obtain ⟨i, hi, ha⟩ := List.mem_flatMap.mp ha
    obtain ⟨b, hb, rfl⟩ := List.mem_map.mp ha
    exact ⟨i, hi, by rw [(List.mem_replicate.mp hb).2]⟩
  · refine List.all_eq_true.mpr fun i hi => decide_eq_true ?_
    simpa [hi, Connection.ask] using hack i hi
  · rintro i hi ⟨op, hop, -⟩
    simp [hi, hdeletes i hi] at hop

/-- A rule of the coordinator is one of its steps. -/
theorem Tx.Advance.exists_step {tx tx' : Tx} (h : tx.Advance cfg.minDbsCount tx')
    (votes : H → List Document) :
    ∃ shuffled, transition cfg (tx, votes) (.coordinator shuffled) = some (tx', votes) := by
  obtain ⟨shuffled, hproceed⟩ := h.proceed rfl fun _ _ => rfl
  have hsend : ({ coord := tx'.coord, conn := tx'.coord.send tx.conn } : Tx) = tx' := by
    cases h <;> rfl
  exact ⟨shuffled, by simp [transition, alone, Tx.step, hproceed, hsend]⟩

/-- The commit ask of a host that voted ok has timed out with the message in the mailbox. -/
def Connection.commitLate (txId : String) (documents : List Document) : Connection where
  voteAsk := .answered .voteOk
  commitAsk := .answered .unknownError
  proxy := { behaviour := .connected, listener := some .vote, inbox := [.commit] }
  agent := { status := .running, documentsToSave := some documents, txId := some txId }

theorem Connection.replays_commitLate (txId : String) (documents : List Document) :
    Replays txId documents [] ((voted txId documents).sendAsk .commit)
      (commitLate txId documents) := by
  refine ⟨[.timeout .commit], by decide, fun votes => ?_⟩
  rw [List.append_nil]
  rfl

/-- If there are as many hosts as the redundancy asks for, all hosts of the first round can
    vote ok. -/
theorem exists_voted (hle : cfg.minDbsCount ≤ cfg.dbHostsConf.length) (hpos : 0 < cfg.minDbsCount)
    (votes : H → List Document) :
    ∃ as rest hosts tx votes', run (transition cfg) (start cfg votes) as = some (tx, votes') ∧
      tx.coord = .voting rest [] hosts ∧ hosts.length = cfg.minDbsCount ∧ hosts.Nodup ∧
      (∀ i ∈ hosts, i < cfg.dbHostsConf.length) ∧
      ∀ i ∈ hosts, tx.conn i = .voted cfg.txId cfg.documents := by
  have hperm : (List.range cfg.dbHostsConf.length).Perm (List.range cfg.dbHostsConf.length) :=
    .refl _
  have hlist : cfg.minDbsCount ≤ (List.range cfg.dbHostsConf.length).length := by simpa using hle
  let hosts := drawHosts (List.range cfg.dbHostsConf.length)
    (cfg.minDbsCount - ([] : List ℕ).length)
  have hvalid : ∀ i ∈ hosts, i < cfg.dbHostsConf.length := fun i hi =>
    List.mem_range.mp (drawHosts_subset hperm i hi)
  have hnd : hosts.Nodup := List.nodup_range.sublist (List.take_sublist _ _)
  -- the coordinator asks them for their votes
  let asked : Tx :=
    { coord := .voting (potentialAfter (List.range cfg.dbHostsConf.length) hosts) [] hosts
      conn := Tx.onEach (Tx.init cfg).conn hosts (·.sendAsk .vote) }
  have hask : (Tx.init cfg).Advance cfg.minDbsCount asked := .startRound rfl hpos hlist hperm
  -- all of them answer
  have hreplay : ∀ i ∈ hosts, Connection.Replays cfg.txId cfg.documents [] (asked.conn i)
      (.voted cfg.txId cfg.documents) := fun i hi => by
    rw [show asked.conn i = Connection.sendAsk {} .vote from if_pos hi]
    exact Connection.replays_voted cfg.txId cfg.documents
  obtain ⟨shuffled, hstep⟩ := hask.exists_step votes
  obtain ⟨as, votes', hrun, -, -⟩ := run_connections hnd hvalid _ hreplay votes
  exact ⟨.coordinator shuffled :: as, _, hosts, _, votes',
    run_cons_eq_some.mpr ⟨_, hstep, hrun⟩, rfl, length_drawHosts hperm hlist, hnd, hvalid,
    fun i hi => if_pos hi⟩

/-- Then they are asked to commit. -/
theorem exists_committing (hle : cfg.minDbsCount ≤ cfg.dbHostsConf.length)
    (hpos : 0 < cfg.minDbsCount) (votes : H → List Document) :
    ∃ as actors tx votes', run (transition cfg) (start cfg votes) as = some (tx, votes') ∧
      tx.coord = .committing actors ∧ actors ≠ [] ∧ actors.Nodup ∧
      (∀ i ∈ actors, i < cfg.dbHostsConf.length) ∧
      ∀ i ∈ actors, tx.conn i = (Connection.voted cfg.txId cfg.documents).sendAsk .commit := by
  obtain ⟨as, rest, hosts, tx, votes', hrun, hcoord, hlength, hnd, hvalid, hconn⟩ :=
    exists_voted hle hpos votes
  -- the votes of the round are counted
  let chosen : Tx := { tx with coord := .selecting rest hosts }
  have hvote : tx.Advance cfg.minDbsCount chosen := by
    have hall : Tx.votedOk tx.conn hosts = hosts :=
      List.filter_eq_self.mpr fun i hi => by simp [hconn i hi, Connection.voted]
    have hend : tx.Advance cfg.minDbsCount _ := .endRound hcoord <|
      List.all_eq_true.mpr fun i hi => by
        simp [hconn i hi, Connection.ask, Connection.voted, Ask.isAnswered]
    rwa [hall] at hend
  -- and are enough
  let committing : Tx :=
    { coord := .committing hosts, conn := Tx.onEach chosen.conn hosts (·.sendAsk .commit) }
  have hcommit : chosen.Advance cfg.minDbsCount committing := .sendCommit rfl hlength.ge
  obtain ⟨shuffled₁, hstep₁⟩ := hvote.exists_step votes'
  obtain ⟨shuffled₂, hstep₂⟩ := hcommit.exists_step votes'
  refine ⟨as ++ [.coordinator shuffled₁, .coordinator shuffled₂], hosts, committing, votes', ?_,
    rfl, List.ne_nil_of_length_pos (hlength ▸ hpos), hnd, hvalid, fun i hi => ?_⟩
  · refine run_append_eq_some.mpr ⟨_, hrun, ?_⟩
    exact run_cons_eq_some.mpr ⟨_, hstep₁, run_cons_eq_some.mpr ⟨_, hstep₂, rfl⟩⟩
  · rw [show committing.conn i = (tx.conn i).sendAsk .commit from if_pos hi, hconn i hi]

/-- **A rollback can be asked for** then: the commits time out. -/
theorem exists_asked (hle : cfg.minDbsCount ≤ cfg.dbHostsConf.length)
    (hpos : 0 < cfg.minDbsCount) (votes : H → List Document) :
    ∃ as s shuffled s' actors, run (transition cfg) (start cfg votes) as = some s ∧
      s.1.coord = .committing actors ∧
      transition cfg s (.coordinator shuffled) = some s' ∧
      s'.1.coord = .rollingBack actors ∧ actors ≠ [] := by
  obtain ⟨as, actors, tx, votes₁, hrun, hcoord, hne, hnd, hvalid, hconn⟩ :=
    exists_committing hle hpos votes
  have hreplay : ∀ i ∈ actors, Connection.Replays cfg.txId cfg.documents [] (tx.conn i)
      (.commitLate cfg.txId cfg.documents) := fun i hi => by
    rw [hconn i hi]
    exact Connection.replays_commitLate cfg.txId cfg.documents
  obtain ⟨as', votes₂, hrun', -, -⟩ := run_connections hnd hvalid _ hreplay votes₁
  let late : Tx := { tx with
    conn := fun i => if i ∈ actors then .commitLate cfg.txId cfg.documents else tx.conn i }
  have hroll : late.Advance cfg.minDbsCount
      { coord := .rollingBack actors,
        conn := Tx.onEach late.conn actors (·.sendAsk .rollback) } := by
    refine .startRollback hcoord (List.all_eq_true.mpr fun i hi => ?_) ?_
    · simp [late, hi, Connection.commitLate, Connection.ask, Ask.isAnswered]
    · obtain ⟨i, hi⟩ := List.exists_mem_of_ne_nil _ hne
      refine List.all_eq_false.mpr ⟨i, hi, ?_⟩
      simp [late, hi, Connection.commitLate, Connection.ask]
  obtain ⟨shuffled, hstep⟩ := hroll.exists_step votes₂
  exact ⟨as ++ as', (late, votes₂), shuffled, _, actors,
    run_append_eq_some.mpr ⟨_, hrun, hrun'⟩, hcoord, hstep, rfl, hne⟩

/-- **When a confirmed rollback has happened.**  That it has in every run can be relied on only
    where no host can be chosen, so that no rollback is ever asked for; and whenever one is asked
    for, the `CommitActor`s can confirm it before it has happened anywhere. -/
theorem confirmed_rollback_has_happened_iff (cfg : Transaction H) (votes : H → List Document) :
    (ConfirmedHasHappened cfg votes ↔
      cfg.minDbsCount = 0 ∨ cfg.dbHostsConf.length < cfg.minDbsCount) ∧
    ∀ as s shuffled s' actors, run (transition cfg) (start cfg votes) as = some s →
      s.1.coord = .committing actors → transition cfg s (.coordinator shuffled) = some s' →
      s'.1.coord = .rollingBack actors → ConfirmableEarly cfg s' actors := by
  refine ⟨⟨fun h => ?_, fun hnone as s actors hrun hcoord _ i hi => ?_⟩,
    fun _ _ _ _ _ hrun hcoord hstep hasked => confirmable_of_asked hrun hcoord hstep hasked⟩
  · by_contra hsome
    have hle : cfg.minDbsCount ≤ cfg.dbHostsConf.length := by omega
    obtain ⟨as, s, shuffled, s', actors, hrun, hcoord, hstep, hasked, hne⟩ :=
      exists_asked hle (by omega) votes
    obtain ⟨later, t, -, hlater, -, hroll, hack, hnot⟩ :=
      confirmable_of_asked hrun hcoord hstep hasked
    obtain ⟨i, hi⟩ := List.exists_mem_of_ne_nil _ hne
    refine hnot i hi (h (as ++ .coordinator shuffled :: later) t actors ?_ hroll hack i hi)
    exact run_append_eq_some.mpr ⟨s, hrun, run_cons_eq_some.mpr ⟨s', hstep, hlater⟩⟩
  · -- whoever is asked to roll back has been chosen, with as many hosts as are needed
    have hc := (invariant_of_run hrun).coordinated
    rw [Coordinated, hcoord] at hc
    have hcount := hc.1.count
    have hfew := (List.subperm_of_subset hc.1.nodup fun j hj =>
      List.mem_range.mpr (hc.1.valid j hj)).length_le
    rw [List.length_range] at hfew
    have hpos := List.length_pos_of_mem hi
    omega

end Early

/-! ### A confirmation that comes too early -/

/-- A confirmed rollback need not have happened. -/
theorem confirmation_is_early : ¬ConfirmedHasHappened Sample.oneHost fun _ => [] := by
  intro h
  have hend : (run (transition Sample.oneHost) (start Sample.oneHost fun _ => [])
      Sample.confirmedEarly).map (fun s => (s.1.coord, Tx.allAck s.1.conn [0] .rollback,
        decide ((s.1.conn 0).RolledBack "t"))) =
      some (.rollingBack [0], true, false) := by decide
  obtain ⟨s, hs, hresult⟩ := Option.map_eq_some_iff.mp hend
  simp only [Prod.mk.injEq, decide_eq_false_iff_not] at hresult
  obtain ⟨hcoord, hack, hnot⟩ := hresult
  exact hnot (h Sample.confirmedEarly s [0] hs hcoord hack 0 (by simp))

end RsoVoting.TwoPhase
