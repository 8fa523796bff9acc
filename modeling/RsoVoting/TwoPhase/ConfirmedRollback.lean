import RsoVoting.TwoPhase.AllOrNothing

namespace RsoVoting.TwoPhase

open RsoVoting.Runs RsoVoting.Interleave

/-!
# What a confirmed rollback is worth

A `CommitActor` answers `Rollback` with `Ack` as soon as it has written the command, so when
the coordinator's `rollback` returns, the commands may still be on the wire or lost and the
deletes running or failed.  This file follows a confirmed rollback to its end:

* `Connection.RolledBack` — the agent has received the rollback and its delete by the id of
  the transaction has completed with success;
* `Connection.Voted` / `Connection.Confirmed` — an agent that voted ok keeps the id, and a
  confirmed rollback is on the wire or a started delete that has not failed;
* `carriesOut` — the steps that lose no confirmed rollback and let none fail;
* `rolledBack_of_atRest` — over runs of such steps a confirmed rollback has happened once
  nothing is under way any more.
-/

variable {H : Type}

namespace Connection

variable {txId : String} {documents : List Document} {c c' : Connection}
  {votes votes' : List Document} {a : ConnAction}

/-- The agent has received the rollback, and its delete has completed with success. -/
def RolledBack (txId : String) (c : Connection) : Prop :=
  ∃ op ∈ c.agent.deletes, op.txId = some txId ∧ op.completed = some true

instance (txId : String) (c : Connection) : Decidable (c.RolledBack txId) :=
  inferInstanceAs (Decidable (∃ op ∈ _, _))

/-- No rollback command is on the wire, and no delete is running. -/
def atRest (c : Connection) : Bool :=
  Command.rollback ∉ c.toAgent ∧ ∀ op ∈ c.agent.deletes, op.completed ≠ none

/-- The step neither loses the command of a confirmed rollback nor lets its delete fail. -/
def carriesOut (c : Connection) : ConnAction → Bool
  | .loseCommand => c.rollbackAsk ≠ .answered .ack ∨ c.toAgent.head? ≠ some .rollback
  | .mongo (.deleteCompletes _ false) => c.rollbackAsk ≠ .answered .ack
  | _ => true

/-! ### An agent that voted ok -/

/-- An agent whose `VOTE_OK` is on the wire or has arrived keeps the id it was told. -/
def Voted (txId : String) (c : Connection) : Prop :=
  Reply.voteOk ∈ c.toProxy ∨ c.voteAsk = .answered .voteOk →
    c.agent.txId = some txId ∧ c.agent.documentsToSave ≠ none

theorem Voted.step (hc : Voted txId c) (hp : Payload txId documents c)
    (h : Rule txId documents c votes a c' votes') : Voted txId c' := by
  intro hv
  cases h with
  | @receiveReply r rest hframe hb =>
    -- the promise is answered by the frame that was on the wire
    have hold : Reply.voteOk ∈ c.toProxy ∨ c.voteAsk = .answered .voteOk := by
      rcases hv with hv | hv
      · exact .inl (by simpa [hframe] using .inr (by simpa using hv))
      · rcases answered_of_reply { c with toProxy := rest } (Reply.forward r) .vote hv with
          hv | ⟨hr, -⟩
        · exact .inr hv
        · cases r with
          | voteOk => exact .inl (by simp [hframe])
          | ack    => simp [Reply.forward] at hr
    simpa using hc hold
  | commandFailed hb =>
    have hold : Reply.voteOk ∈ c.toProxy ∨ c.voteAsk = .answered .voteOk := by
      refine hv.imp (by simp) fun hv => ?_
      exact (answered_of_reply c .voteError .vote hv).resolve_right (by simp)
    simpa using hc hold
  | requestRollback =>
    have hvote : ∀ d : Connection, (d.complete .rollback .ack).voteAsk = d.voteAsk := fun d => by
      unfold complete
      split <;> rfl
    simpa using hc (by simpa [hvote] using hv)
  | @timeout p hask =>
    cases p with
    | vote => simpa using hc (.inl (by simpa [setAsk] using hv))
    | commit | rollback => exact hc hv
  | @receiveVote t ds rest hframe =>
    obtain ⟨rfl, -⟩ := hp.frames t ds (by simp [hframe])
    exact ⟨rfl, by simp⟩
  | receiveCommitThrows hframe ha hs =>
    -- an agent that voted ok has documents to save
    exact absurd hs (hc hv).2
  | insertCompletes | deleteCompletes =>
    refine hc (hv.imp_left fun hmem => ?_)
    rcases List.mem_append.mp hmem with hmem | hmem
    · exact hmem
    · split at hmem <;> simp at hmem
  | loseReply hframe => exact hc (hv.imp_left fun hmem => by simp [hframe, hmem])
  | _ => exact hc hv

/-! ### A confirmed rollback is accounted for -/

/-- A rollback that was confirmed is on the wire or has started a delete, by the id of the
    transaction, that has not failed. -/
structure Confirmed (txId : String) (c : Connection) : Prop where
  pending : c.rollbackAsk = .answered .ack → Command.rollback ∈ c.toAgent ∨ c.agent.deletes ≠ []
  unfailed : c.rollbackAsk = .answered .ack → ∀ op ∈ c.agent.deletes, op.completed ≠ some false
  tagged : ∀ op ∈ c.agent.deletes, op.txId = some txId
  listener : c.proxy.listener = some .rollback → ∃ m, c.rollbackAsk = .answered m

theorem Confirmed.initial : Confirmed txId {} :=
  ⟨by simp, by simp, by simp, by simp⟩

/-- At rest, a confirmed rollback has happened. -/
theorem Confirmed.rolledBack (hc : Confirmed txId c) (hack : c.rollbackAsk = .answered .ack)
    (hrest : c.atRest = true) : c.RolledBack txId := by
  simp only [atRest, decide_eq_true_eq] at hrest
  obtain ⟨op, hop⟩ := List.exists_mem_of_ne_nil _ ((hc.pending hack).resolve_left hrest.1)
  refine ⟨op, hop, hc.tagged op hop, ?_⟩
  -- it has completed, and has not failed
  cases hdone : op.completed with
  | none => exact absurd hdone (hrest.2 op hop)
  | some ok =>
    cases ok with
    | true  => rfl
    | false => exact absurd hdone (hc.unfailed hack op hop)

/-- A rollback in the mailbox has been asked for and has started no delete. -/
theorem Tokens.of_rollback_mem_inbox (ht : Tokens c) (hmem : Request.rollback ∈ c.proxy.inbox) :
    c.rollbackAsk ≠ .unsent ∧ c.agent.deletes = [] := by
  have hpos := List.count_pos_iff.mpr hmem
  have hle := ht.rollbacks_le
  refine ⟨fun hu => ?_, List.eq_nil_of_length_eq_zero ?_⟩
  · have h0 := ht.rollbacks_unsent hu
    unfold rollbacks at h0
    omega
  · unfold rollbacks at hle
    omega

/-- **Step lemma.**  A step that carries confirmed rollbacks out keeps them accounted for. -/
theorem Confirmed.step (hc : Confirmed txId c) (ht : Tokens c) (hv : Voted txId c)
    (hasked : c.rollbackAsk ≠ .unsent → c.voteAsk = .answered .voteOk)
    (hcarry : c.carriesOut a = true) (h : Rule txId documents c votes a c' votes') :
    Confirmed txId c' := by
  have hkeep : ∀ m, c.rollbackAsk = .answered m → c'.rollbackAsk = .answered m :=
    fun m hm => h.ask_answered (p := .rollback) hm
  obtain ⟨hpend, hunf, htag, hlis⟩ := hc
  cases h with
  | requestVote => exact ⟨hpend, hunf, htag, by simp⟩
  | requestCommit => exact ⟨fun hack => (hpend hack).imp_left (by simp), hunf, htag, by simp⟩
  | @requestRollback rest hinbox hb =>
    -- the command goes on the wire as the ask is answered
    obtain ⟨hne, hnil⟩ := ht.of_rollback_mem_inbox (by simp [hinbox])
    refine ⟨fun _ => .inl (by simp), by simp [hnil], by simp [hnil], fun _ => ?_⟩
    cases hask : c.rollbackAsk with
    | unsent     => exact absurd hask hne
    | answered m => exact ⟨m, by simp [complete, ask]⟩
    | pending    => exact ⟨.ack, by simp [complete, ask, setAsk]⟩
  | commandFailed hb =>
    have hold : (c.reply .voteError).rollbackAsk = .answered .ack →
        c.rollbackAsk = .answered .ack := fun hack =>
      (answered_of_reply c .voteError .rollback hack).resolve_right (by simp)
    refine ⟨fun hack => by simpa using hpend (hold hack),
      fun hack => by simpa using hunf (hold hack), by simpa using htag, fun hl => ?_⟩
    obtain ⟨m, hm⟩ := hlis (by simpa using hl)
    exact ⟨m, hkeep m hm⟩
  | @receiveReply r rest hframe hb =>
    -- no reply of the agent answers a rollback: the ask was answered with the command
    have hold : (reply { c with toProxy := rest } (Reply.forward r)).rollbackAsk =
        .answered .ack → c.rollbackAsk = .answered .ack := fun hack => by
      rcases answered_of_reply { c with toProxy := rest } (Reply.forward r) .rollback hack with
        hack | ⟨-, hl, hask⟩
      · exact hack
      · obtain ⟨m, hm⟩ := hlis hl
        simp [ask, hm] at hask
    refine ⟨fun hack => by simpa using hpend (hold hack),
      fun hack => by simpa using hunf (hold hack), by simpa using htag, fun hl => ?_⟩
    obtain ⟨m, hm⟩ := hlis (by simpa using hl)
    exact ⟨m, hkeep m hm⟩
  | connected => exact ⟨fun hack => (hpend hack).imp_left (by simp), hunf, htag, hlis⟩
  | receiveVote hframe | receiveCommit hframe | receiveCommitThrows hframe =>
    exact ⟨fun hack => (hpend hack).imp_left (by simp [hframe]), hunf, htag, hlis⟩
  | @receiveRollback rest hframe ha =>
    -- from the wire to a started delete, by the id that the agent was told
    have hne : c.rollbackAsk ≠ .unsent := fun hu => by
      have h0 := ht.rollbacks_unsent hu
      simp [rollbacks, hframe] at h0
    have htx := (hv (.inr (hasked hne))).1
    refine ⟨fun _ => .inr (by simp), fun hack op hop => ?_, fun op hop => ?_, hlis⟩
    all_goals rcases List.mem_append.mp hop with hop | hop
    · exact hunf hack op hop
    · obtain rfl := List.mem_singleton.mp hop
      simp
    · exact htag op hop
    · obtain rfl := List.mem_singleton.mp hop
      exact htx
  | @applyDelete k op hop hrun =>
    refine ⟨fun hack => (hpend hack).imp_right (by simp),
      fun hack => forall_mem_set (hunf hack) ?_ k, forall_mem_set htag ?_ k, hlis⟩
    · simp [hrun]
    · exact htag op (List.mem_of_getElem? hop)
  | @deleteCompletes k op ok hop hrun hok =>
    refine ⟨fun hack => (hpend hack).imp_right (by simp),
      fun hack => forall_mem_set (hunf hack) ?_ k, forall_mem_set htag ?_ k, hlis⟩
    · -- the delete of a confirmed rollback does not fail
      rintro ⟨rfl⟩
      simp [carriesOut, show c.rollbackAsk = .answered .ack from hack] at hcarry
    · exact htag op (List.mem_of_getElem? hop)
  | @timeout p hask =>
    cases p with
    | vote | commit => exact ⟨hpend, hunf, htag, hlis⟩
    | rollback => exact ⟨by simp [setAsk], by simp [setAsk], htag, fun _ => ⟨_, rfl⟩⟩
  | @loseCommand m rest hframe =>
    refine ⟨fun hack => (hpend hack).imp_left fun hmem => ?_, hunf, htag, hlis⟩
    simp only [carriesOut, hframe, List.head?_cons, decide_eq_true_eq] at hcarry
    have hne : m ≠ .rollback := fun e => hcarry.resolve_left (fun hn => hn hack) (by rw [e])
    have hmem' : Command.rollback = m ∨ Command.rollback ∈ rest := by simpa [hframe] using hmem
    exact hmem'.resolve_left fun e => hne e.symm
  | _ => exact ⟨hpend, hunf, htag, hlis⟩

/-! ### The coordinator's messages -/

theorem Voted.sendAsk (hc : Voted txId c) (p : Phase) : Voted txId (c.sendAsk p) := by
  intro hv
  rw [sendAsk_agent]
  refine hc (hv.imp (by simp) fun hv => ?_)
  -- a fresh promise is not answered
  have hask := ask_sendAsk c p .vote
  rw [show (c.sendAsk p).ask .vote = .answered .voteOk from hv] at hask
  split at hask
  · simp at hask
  · exact hask.symm

theorem Confirmed.sendAsk (hc : Confirmed txId c) {p : Phase} (hp : c.ask p = .unsent) :
    Confirmed txId (c.sendAsk p) := by
  obtain ⟨hpend, hunf, htag, hlis⟩ := hc
  have hask : (c.sendAsk p).rollbackAsk = if .rollback = p then .pending else c.rollbackAsk :=
    ask_sendAsk c p .rollback
  by_cases h : Phase.rollback = p
  · subst h
    rw [if_pos rfl] at hask
    refine ⟨by simp [hask], by simp [hask], by simpa using htag, fun hl => ?_⟩
    -- a listener's ask has been answered, so it is not sent now
    obtain ⟨m, hm⟩ := hlis (by simpa using hl)
    simp [ask, hm] at hp
  · rw [if_neg h] at hask
    exact ⟨by simpa [hask] using hpend, by simpa [hask] using hunf, by simpa using htag,
      by simpa [hask] using hlis⟩

theorem Confirmed.tell (hc : Confirmed txId c) (r : Request) : Confirmed txId (c.tell r) :=
  ⟨hc.pending, hc.unfailed, hc.tagged, hc.listener⟩

end Connection

/-! ### Over a whole transaction -/

/-- The step carries confirmed rollbacks out. -/
def carriesOut (s : State H) : Tx.Action → Bool
  | .coordinator _  => true
  | .connection i a => (s.1.conn i).carriesOut a

/-- What holds along a run whose steps carry confirmed rollbacks out. -/
structure Accounted (cfg : Transaction H) (tx : Tx) : Prop where
  invariant : Invariant cfg tx
  voted : ∀ i, Connection.Voted cfg.txId (tx.conn i)
  confirmed : ∀ i, Connection.Confirmed cfg.txId (tx.conn i)

theorem Accounted.init (cfg : Transaction H) : Accounted cfg (Tx.init cfg) where
  invariant := .init cfg
  voted i := by simp [Tx.init, Connection.Voted]
  confirmed _ := .initial

/-- Only a host that voted ok is asked to roll back. -/
theorem Invariant.voted_of_asked {cfg : Transaction H} {tx : Tx} (hinv : Invariant cfg tx)
    {i : ℕ} (hasked : (tx.conn i).rollbackAsk ≠ .unsent) :
    (tx.conn i).voteAsk = .answered .voteOk := by
  have hc := hinv.coordinated
  unfold Coordinated at hc
  split at hc
  case h_1 | h_2 => exact absurd (hc.2.2.2.2.2.2 i (by simp)) hasked
  case h_3 => exact absurd (hc.2.2 i (by simp)) hasked
  case h_4 | h_5 =>
    -- it is an actor of the selection
    have hactor := not_imp_comm.mp (hc.2.2 i) hasked
    exact hc.1.votedOk i hactor
  case h_6 => exact absurd (hc.2.2.1 i (by simp)) hasked
  case h_7 => exact absurd (hc.2 i (by simp)) hasked
  case h_8 => exact hc.elim

section Runs

variable [DecidableEq H] {cfg : Transaction H} {votes : H → List Document}

/-- **Step lemma.** -/
theorem Accounted.step {s s' : State H} {a : Tx.Action} (hI : Accounted cfg s.1)
    (hcarry : carriesOut s a = true) (h : transition cfg s a = some s') :
    Accounted cfg s'.1 := by
  obtain ⟨tx, votes⟩ := s
  obtain ⟨tx', votes'⟩ := s'
  have hinv : Invariant cfg tx' := hI.invariant.step h
  cases a with
  | coordinator shuffled =>
    have hadv := (Tx.advance_of_step h).1
    have hc := hI.invariant.coordinated
    exact ⟨hinv, hadv.forall_conn hc hI.voted (fun _ p hv _ => hv.sendAsk p) fun _ hv => hv,
      hadv.forall_conn hc hI.confirmed (fun _ _ hc hu => hc.sendAsk hu)
        fun _ hc => hc.tell .poisonPill⟩
  | connection k a =>
    obtain ⟨host, c, vs, -, -, hrule, rfl, rfl⟩ := Tx.connection_of_step h
    have hsound := hI.invariant.sound k
    refine ⟨hinv, ?_, ?_⟩
    · exact (Function.forall_update_iff tx.conn fun _ c => Connection.Voted cfg.txId c).mpr
        ⟨(hI.voted k).step hsound.payload hrule, fun j _ => hI.voted j⟩
    · exact (Function.forall_update_iff tx.conn fun _ c => Connection.Confirmed cfg.txId c).mpr
        ⟨(hI.confirmed k).step hsound.tokens (hI.voted k) hI.invariant.voted_of_asked hcarry
          hrule, fun j _ => hI.confirmed j⟩

/-- **What a confirmation is worth.**  In a run that loses no command of a confirmed rollback
    and lets none of its deletes fail, a confirmed rollback has happened as soon as nothing is
    under way on its connection. -/
theorem rolledBack_of_atRest {as : List Tx.Action} {s : State H}
    (hP : Along (transition cfg) (fun s a => carriesOut s a = true) (start cfg votes) as)
    (hrun : run (transition cfg) (start cfg votes) as = some s) {i : ℕ}
    (hack : (s.1.conn i).rollbackAsk = .answered .ack) (hrest : (s.1.conn i).atRest = true) :
    (s.1.conn i).RolledBack cfg.txId := by
  have hI : Accounted cfg s.1 := run_invariant_along (I := fun s => Accounted cfg s.1)
    (fun _ _ _ hI hP h => hI.step hP h) (.init cfg) hP hrun
  exact (hI.confirmed i).rolledBack hack hrest

end Runs

/-! ### A rollback that is confirmed first and happens then -/

namespace Sample

/-- The commit of the one host times out before it has reached the agent. -/
def commitLate : List Tx.Action :=
  [.coordinator [0]] ++ votes 0 ++ [.coordinator [], .coordinator []] ++
  onHost 0 [.handleRequest, .timeout .commit] ++ [.coordinator []]

/-- The `CommitActor` confirms the rollback; the command is on the wire. -/
def confirmedEarly : List Tx.Action := commitLate ++ onHost 0 [.handleRequest]

/-- The agent handles both commands and its delete completes before the coordinator goes
    on. -/
def confirmedInTime : List Tx.Action :=
  confirmedEarly ++ onHost 0 [.receiveCommand, .receiveCommand, .mongo (.storeNext 0),
    .mongo (.applyDelete 0), .mongo (.deleteCompletes 0 true)]

end Sample

/-- At the end of the sample run the rollback has happened. -/
theorem rolledBack_of_atRest_sample :
    ∃ s, run (transition Sample.oneHost) (start Sample.oneHost fun _ => [])
        Sample.confirmedInTime = some s ∧
      s.1.coord = .rollingBack [0] ∧ (s.1.conn 0).RolledBack "t" := by
  have hend : (run (transition Sample.oneHost) (start Sample.oneHost fun _ => [])
      Sample.confirmedInTime).map (fun s => (s.1.coord, (s.1.conn 0).rollbackAsk,
        (s.1.conn 0).atRest)) = some (.rollingBack [0], .answered .ack, true) := by decide
  obtain ⟨s, hs, hresult⟩ := Option.map_eq_some_iff.mp hend
  simp only [Prod.mk.injEq] at hresult
  obtain ⟨hcoord, hack, hrest⟩ := hresult
  have hcarry : Along (transition Sample.oneHost) (fun s a => carriesOut s a = true)
      (start Sample.oneHost fun _ => []) Sample.confirmedInTime := by decide
  exact ⟨s, hs, hcoord, rolledBack_of_atRest hcarry hs hack hrest⟩

end RsoVoting.TwoPhase
