import RsoVoting.TwoPhase.CommitActor
import Mathlib.Data.Option.Basic

namespace RsoVoting.TwoPhase.Connection

/-!
# What a step of a connection can do

`Connection.step` is the executable model.  This file states once what each of its steps
does, as an inductive relation with one rule per case of the handlers, so that every
invariant is a case analysis on rules and no proof unfolds the handlers again.

* `Rule` — the steps, with their guards and their effect written out;
* `rule_of_step` — every step of the executable model is one of the rules;
* the `simp` lemmas on `setAsk`, `complete`, `tell` and `sendAsk` say which fields these
  touch.
-/

/-! ### The promise operations, field by field -/

section Fields

variable (c : Connection) (p q : Phase) (a : Ask) (m : Message) (r : Request)

@[simp] theorem setAsk_proxy : (c.setAsk p a).proxy = c.proxy := by cases p <;> rfl
@[simp] theorem setAsk_toAgent : (c.setAsk p a).toAgent = c.toAgent := by cases p <;> rfl
@[simp] theorem setAsk_toProxy : (c.setAsk p a).toProxy = c.toProxy := by cases p <;> rfl
@[simp] theorem setAsk_agent : (c.setAsk p a).agent = c.agent := by cases p <;> rfl

/-- Overwriting one promise leaves the others. -/
theorem ask_setAsk : (c.setAsk p a).ask q = if q = p then a else c.ask q := by
  cases p <;> cases q <;> rfl

@[simp] theorem complete_proxy : (c.complete p m).proxy = c.proxy := by
  unfold complete; split <;> simp
@[simp] theorem complete_toAgent : (c.complete p m).toAgent = c.toAgent := by
  unfold complete; split <;> simp
@[simp] theorem complete_toProxy : (c.complete p m).toProxy = c.toProxy := by
  unfold complete; split <;> simp
@[simp] theorem complete_agent : (c.complete p m).agent = c.agent := by
  unfold complete; split <;> simp

/-- A message completes its promise if that is pending, and changes no other. -/
theorem ask_complete :
    (c.complete p m).ask q = if q = p ∧ c.ask p = .pending then .answered m else c.ask q := by
  unfold complete
  split <;> simp_all [ask_setAsk]

@[simp] theorem tell_toAgent : (c.tell r).toAgent = c.toAgent := rfl
@[simp] theorem tell_toProxy : (c.tell r).toProxy = c.toProxy := rfl
@[simp] theorem tell_agent : (c.tell r).agent = c.agent := rfl
@[simp] theorem tell_inbox : (c.tell r).proxy.inbox = c.proxy.inbox ++ [r] := rfl
@[simp] theorem tell_behaviour : (c.tell r).proxy.behaviour = c.proxy.behaviour := rfl
@[simp] theorem tell_listener : (c.tell r).proxy.listener = c.proxy.listener := rfl
@[simp] theorem ask_tell : (c.tell r).ask q = c.ask q := by cases q <;> rfl

@[simp] theorem sendAsk_toAgent : (c.sendAsk p).toAgent = c.toAgent := by simp [sendAsk]
@[simp] theorem sendAsk_toProxy : (c.sendAsk p).toProxy = c.toProxy := by simp [sendAsk]
@[simp] theorem sendAsk_agent : (c.sendAsk p).agent = c.agent := by simp [sendAsk]
@[simp] theorem sendAsk_inbox :
    (c.sendAsk p).proxy.inbox = c.proxy.inbox ++ [p.request] := by simp [sendAsk]
@[simp] theorem sendAsk_behaviour :
    (c.sendAsk p).proxy.behaviour = c.proxy.behaviour := by simp [sendAsk]
@[simp] theorem sendAsk_listener :
    (c.sendAsk p).proxy.listener = c.proxy.listener := by simp [sendAsk]

/-- An ask makes its own promise pending and leaves the others. -/
theorem ask_sendAsk : (c.sendAsk p).ask q = if q = p then .pending else c.ask q := by
  simp [sendAsk, ask_setAsk]

end Fields

/-! ### The rules -/

/-- The steps of a connection of the transaction `txId` with these documents. -/
inductive Rule (txId : String) (documents : List Document) :
    Connection → List Document → ConnAction → Connection → List Document → Prop
  | requestVote {c votes rest} (hinbox : c.proxy.inbox = .vote :: rest)
      (hb : c.proxy.behaviour = .idle ∨ c.proxy.behaviour = .connecting) :
      Rule txId documents c votes .handleRequest
        { c with proxy := { behaviour := .connecting, listener := some .vote, inbox := rest } }
        votes
  | requestCommit {c votes rest} (hinbox : c.proxy.inbox = .commit :: rest)
      (hb : c.proxy.behaviour = .connected) :
      Rule txId documents c votes .handleRequest
        { c with
            proxy := { behaviour := .connected, listener := some .commit, inbox := rest },
            toAgent := c.toAgent ++ [.commit] }
        votes
  | requestRollback {c votes rest} (hinbox : c.proxy.inbox = .rollback :: rest)
      (hb : c.proxy.behaviour = .connected) :
      Rule txId documents c votes .handleRequest
        (complete
          { c with
              proxy := { behaviour := .connected, listener := some .rollback, inbox := rest },
              toAgent := c.toAgent ++ [.rollback] } .rollback .ack)
        votes
  | requestPoisonPill {c votes rest} (hinbox : c.proxy.inbox = .poisonPill :: rest)
      (hb : c.proxy.behaviour ≠ .stopped) :
      Rule txId documents c votes .handleRequest
        { c with proxy := { c.proxy with behaviour := .stopped, inbox := rest } } votes
  | requestDropped {c votes r rest} (hinbox : c.proxy.inbox = r :: rest)
      (hb : c.proxy.behaviour = .connected ∧ r = .vote ∨
        c.proxy.behaviour ≠ .connected ∧ c.proxy.behaviour ≠ .stopped ∧
          (r = .commit ∨ r = .rollback)) :
      Rule txId documents c votes .handleRequest
        { c with proxy := { c.proxy with inbox := rest } } votes
  | commandFailed {c votes} (hb : c.proxy.behaviour = .connecting) :
      Rule txId documents c votes .commandFailed
        { c.reply .voteError with
            proxy := { (c.reply .voteError).proxy with behaviour := .stopped } } votes
  | connected {c votes} (hb : c.proxy.behaviour = .connecting)
      (ha : c.agent.status = .absent) :
      Rule txId documents c votes .connected
        { c with
            proxy := { c.proxy with behaviour := .connected },
            agent := { c.agent with status := .running },
            toAgent := c.toAgent ++ [.vote txId documents] } votes
  | receiveReply {c votes r rest} (hframe : c.toProxy = r :: rest)
      (hb : c.proxy.behaviour = .connected) :
      Rule txId documents c votes .receiveReply
        (reply { c with toProxy := rest } (Reply.forward r)) votes
  | receiveVote {c votes t ds rest} (hframe : c.toAgent = .vote t ds :: rest)
      (ha : c.agent.status = .running) :
      Rule txId documents c votes .receiveCommand
        { c with
            toAgent := rest,
            agent := { c.agent with documentsToSave := some ds, txId := some t },
            toProxy := c.toProxy ++ [.voteOk] } votes
  | receiveCommit {c votes ds rest} (hframe : c.toAgent = .commit :: rest)
      (ha : c.agent.status = .running) (hsaved : c.agent.documentsToSave = some ds) :
      Rule txId documents c votes .receiveCommand
        { c with
            toAgent := rest,
            agent := { c.agent with inserts := c.agent.inserts ++ [{ docs := ds }] } } votes
  | receiveCommitThrows {c votes rest} (hframe : c.toAgent = .commit :: rest)
      (ha : c.agent.status = .running) (hsaved : c.agent.documentsToSave = none) :
      Rule txId documents c votes .receiveCommand
        { c with toAgent := rest, agent := c.agent.restart } votes
  | receiveRollback {c votes rest} (hframe : c.toAgent = .rollback :: rest)
      (ha : c.agent.status = .running) :
      Rule txId documents c votes .receiveCommand
        { c with
            toAgent := rest,
            agent := { c.agent with
              deletes := c.agent.deletes ++ [{ txId := c.agent.txId }] } } votes
  | peerClosed {c votes} (ha : c.agent.status = .running) :
      Rule txId documents c votes .peerClosed
        { c with agent := { c.agent with status := .stopped } } votes
  | storeNext {c votes k op doc} (hop : c.agent.inserts[k]? = some op)
      (hdoc : op.docs[op.stored]? = some doc) (hrun : op.completed = none) :
      Rule txId documents c votes (.mongo (.storeNext k))
        { c with agent := { c.agent with
            inserts := c.agent.inserts.set k { op with stored := op.stored + 1 } } }
        (votes ++ [doc])
  | insertCompletes {c votes k op ok} (hop : c.agent.inserts[k]? = some op)
      (hrun : op.completed = none) (hok : ok = true → op.stored = op.docs.length) :
      Rule txId documents c votes (.mongo (.insertCompletes k ok))
        { c with
            agent := { c.agent with
              inserts := c.agent.inserts.set k { op with completed := some ok },
              stopRequested := true },
            toProxy := c.toProxy ++ if ok then [.ack] else [] } votes
  | applyDelete {c votes k op} (hop : c.agent.deletes[k]? = some op)
      (hrun : op.completed = none) (hap : op.applied = false) :
      Rule txId documents c votes (.mongo (.applyDelete k))
        { c with agent := { c.agent with
            deletes := c.agent.deletes.set k { op with applied := true } } }
        (votes.filter fun d => !matchesTxId op.txId d)
  | deleteCompletes {c votes k op ok} (hop : c.agent.deletes[k]? = some op)
      (hrun : op.completed = none) (hok : ok = true → op.applied = true) :
      Rule txId documents c votes (.mongo (.deleteCompletes k ok))
        { c with
            agent := { c.agent with
              deletes := c.agent.deletes.set k { op with completed := some ok },
              stopRequested := true },
            toProxy := c.toProxy ++ if ok then [.ack] else [] } votes
  | stopAgent {c votes} (ha : c.agent.status = .running) (hreq : c.agent.stopRequested = true) :
      Rule txId documents c votes .stopAgent
        { c with agent := { c.agent with status := .stopped } } votes
  | stopChild {c votes} (hb : c.proxy.behaviour ≠ .stopped) :
      Rule txId documents c votes .stopChild
        { c with proxy := { c.proxy with behaviour := .stopped } } votes
  | timeout {c votes p} (hask : c.ask p = .pending) :
      Rule txId documents c votes (.timeout p) (c.setAsk p (.answered .unknownError)) votes
  | loseCommand {c votes m rest} (hframe : c.toAgent = m :: rest) :
      Rule txId documents c votes .loseCommand { c with toAgent := rest } votes
  | loseReply {c votes r rest} (hframe : c.toProxy = r :: rest) :
      Rule txId documents c votes .loseReply { c with toProxy := rest } votes

/-! ### Every step is one of the rules -/

variable {txId : String} {documents : List Document} {c c' : Connection}
  {votes votes' : List Document}

/-- What holds of all operations still does when one is replaced by another of which it holds. -/
theorem forall_mem_set {α : Type} {p : α → Prop} {l : List α} (h : ∀ x ∈ l, p x) {y : α}
    (hy : p y) (k : ℕ) : ∀ x ∈ l.set k y, p x := by
  intro x hx
  rcases List.mem_or_eq_of_mem_set hx with hx | rfl
  · exact h x hx
  · exact hy

/-- A non-empty queue, split at its head. -/
private theorem eq_cons_of_head? {α : Type} {l : List α} {x : α} (h : l.head? = some x) :
    l = x :: l.tail :=
  (List.cons_head?_tail h).symm

private theorem eq_cons_of_ne_nil {α : Type} {l : List α} (h : l ≠ []) :
    ∃ x, l = x :: l.tail := by
  obtain ⟨x, rest, rfl⟩ := List.exists_cons_of_ne_nil h
  exact ⟨x, rfl⟩

private theorem rule_of_handleRequest
    (h : c.step txId documents votes .handleRequest = some (c', votes')) :
    Rule txId documents c votes .handleRequest c' votes' := by
  simp only [step, Option.bind_eq_bind, Option.bind_eq_some_iff, Option.guard_eq_some'] at h
  obtain ⟨r, hr, _, hb, h⟩ := h
  have hinbox := eq_cons_of_head? hr
  obtain ⟨rfl, rfl⟩ : _ = c' ∧ votes = votes' := by simpa using h
  cases hbeh : c.proxy.behaviour with
  | stopped => exact absurd hbeh hb
  | idle =>
    cases r with
    | vote => simpa [handleRequest, hbeh] using Rule.requestVote hinbox (.inl hbeh)
    | poisonPill => simpa [handleRequest, hbeh] using Rule.requestPoisonPill hinbox hb
    | commit => simpa [handleRequest, hbeh] using Rule.requestDropped hinbox (by simp [hbeh])
    | rollback => simpa [handleRequest, hbeh] using Rule.requestDropped hinbox (by simp [hbeh])
  | connecting =>
    cases r with
    | vote => simpa [handleRequest, hbeh] using Rule.requestVote hinbox (.inr hbeh)
    | poisonPill => simpa [handleRequest, hbeh] using Rule.requestPoisonPill hinbox hb
    | commit => simpa [handleRequest, hbeh] using Rule.requestDropped hinbox (by simp [hbeh])
    | rollback => simpa [handleRequest, hbeh] using Rule.requestDropped hinbox (by simp [hbeh])
  | connected =>
    cases r with
    | vote => simpa [handleRequest, hbeh] using Rule.requestDropped hinbox (by simp [hbeh])
    | poisonPill => simpa [handleRequest, hbeh] using Rule.requestPoisonPill hinbox hb
    | commit => simpa [handleRequest, hbeh] using Rule.requestCommit hinbox hbeh
    | rollback =>
      simpa [handleRequest, hbeh, reply] using Rule.requestRollback hinbox hbeh

private theorem rule_of_receiveCommand
    (h : c.step txId documents votes .receiveCommand = some (c', votes')) :
    Rule txId documents c votes .receiveCommand c' votes' := by
  simp only [step, Option.bind_eq_bind, Option.bind_eq_some_iff, Option.guard_eq_some'] at h
  obtain ⟨m, hm, _, ha, h⟩ := h
  have hframe := eq_cons_of_head? hm
  obtain ⟨rfl, rfl⟩ : _ = c' ∧ votes = votes' := by simpa using h
  cases m with
  | vote t ds => exact Rule.receiveVote hframe ha
  | commit =>
    cases hsaved : c.agent.documentsToSave with
    | none =>
      simpa [DbAgentActor.receive, hsaved] using Rule.receiveCommitThrows hframe ha hsaved
    | some ds =>
      simpa [DbAgentActor.receive, hsaved] using Rule.receiveCommit hframe ha hsaved
  | rollback => simpa [DbAgentActor.receive] using Rule.receiveRollback hframe ha

private theorem rule_of_mongo {m : DbAgentActor.MongoAction}
    (h : c.step txId documents votes (.mongo m) = some (c', votes')) :
    Rule txId documents c votes (.mongo m) c' votes' := by
  simp only [step, Option.bind_eq_bind, Option.bind_eq_some_iff] at h
  obtain ⟨⟨a, vs, replies⟩, hm, h⟩ := h
  obtain ⟨rfl, rfl⟩ : _ = c' ∧ vs = votes' := by simpa using h
  cases m with
  | storeNext k =>
    simp only [DbAgentActor.mongo, Option.bind_eq_bind, Option.bind_eq_some_iff,
      Option.guard_eq_some'] at hm
    obtain ⟨op, hop, doc, hdoc, _, hrun, hm⟩ := hm
    obtain ⟨rfl, rfl, rfl⟩ : _ = a ∧ _ = vs ∧ replies = [] := by simpa using hm
    simpa using Rule.storeNext hop hdoc hrun
  | insertCompletes k ok =>
    simp only [DbAgentActor.mongo, Option.bind_eq_bind, Option.bind_eq_some_iff,
      Option.guard_eq_some', DbAgentActor.onComplete] at hm
    obtain ⟨op, hop, _, ⟨hrun, hok⟩, hm⟩ := hm
    obtain ⟨rfl, rfl, rfl⟩ : _ = a ∧ _ = vs ∧ _ = replies := by simpa using hm
    exact Rule.insertCompletes hop hrun hok
  | applyDelete k =>
    simp only [DbAgentActor.mongo, Option.bind_eq_bind, Option.bind_eq_some_iff,
      Option.guard_eq_some'] at hm
    obtain ⟨op, hop, _, ⟨hrun, hap⟩, hm⟩ := hm
    obtain ⟨rfl, rfl, rfl⟩ : _ = a ∧ _ = vs ∧ replies = [] := by simpa using hm
    simpa using Rule.applyDelete hop hrun hap
  | deleteCompletes k ok =>
    simp only [DbAgentActor.mongo, Option.bind_eq_bind, Option.bind_eq_some_iff,
      Option.guard_eq_some', DbAgentActor.onComplete] at hm
    obtain ⟨op, hop, _, ⟨hrun, hok⟩, hm⟩ := hm
    obtain ⟨rfl, rfl, rfl⟩ : _ = a ∧ _ = vs ∧ _ = replies := by simpa using hm
    exact Rule.deleteCompletes hop hrun hok

/-- **Inversion.**  Every step of the executable model is one of the rules. -/
theorem rule_of_step {a : ConnAction}
    (h : c.step txId documents votes a = some (c', votes')) :
    Rule txId documents c votes a c' votes' := by
  cases a
  case handleRequest => exact rule_of_handleRequest h
  case receiveCommand => exact rule_of_receiveCommand h
  case mongo m => exact rule_of_mongo h
  all_goals
    simp only [step, Option.bind_eq_bind, Option.bind_eq_some_iff, Option.guard_eq_some'] at h
  case commandFailed =>
    obtain ⟨_, hb, h⟩ := h
    obtain ⟨rfl, rfl⟩ : _ = c' ∧ votes = votes' := by simpa using h
    exact .commandFailed hb
  case connected =>
    obtain ⟨_, ⟨hb, ha⟩, h⟩ := h
    obtain ⟨rfl, rfl⟩ : _ = c' ∧ votes = votes' := by simpa using h
    exact .connected hb ha
  case receiveReply =>
    obtain ⟨r, hr, _, hb, h⟩ := h
    obtain ⟨rfl, rfl⟩ : _ = c' ∧ votes = votes' := by simpa using h
    exact .receiveReply (eq_cons_of_head? hr) hb
  case peerClosed =>
    obtain ⟨_, ha, h⟩ := h
    obtain ⟨rfl, rfl⟩ : _ = c' ∧ votes = votes' := by simpa using h
    exact .peerClosed ha
  case stopAgent =>
    obtain ⟨_, ⟨ha, hreq⟩, h⟩ := h
    obtain ⟨rfl, rfl⟩ : _ = c' ∧ votes = votes' := by simpa using h
    exact .stopAgent ha hreq
  case stopChild =>
    obtain ⟨_, hb, h⟩ := h
    obtain ⟨rfl, rfl⟩ : _ = c' ∧ votes = votes' := by simpa using h
    exact .stopChild hb
  case timeout p =>
    obtain ⟨_, hask, h⟩ := h
    obtain ⟨rfl, rfl⟩ : _ = c' ∧ votes = votes' := by simpa using h
    exact .timeout hask
  case loseCommand =>
    obtain ⟨_, hne, h⟩ := h
    obtain ⟨rfl, rfl⟩ : _ = c' ∧ votes = votes' := by simpa using h
    obtain ⟨m, hm⟩ := eq_cons_of_ne_nil hne
    exact .loseCommand hm
  case loseReply =>
    obtain ⟨_, hne, h⟩ := h
    obtain ⟨rfl, rfl⟩ : _ = c' ∧ votes = votes' := by simpa using h
    obtain ⟨r, hr⟩ := eq_cons_of_ne_nil hne
    exact .loseReply hr

/-! ### Forwarding a reply -/

/-- A reply completes the listener's promise; without a listener the actor restarts. -/
theorem reply_cases (c : Connection) (m : Message) :
    (∃ p, c.proxy.listener = some p ∧ c.reply m = c.complete p m) ∨
      (c.proxy.listener = none ∧
        c.reply m = { c with proxy := { c.proxy with behaviour := .idle } }) := by
  unfold reply
  cases h : c.proxy.listener with
  | none   => exact .inr ⟨rfl, rfl⟩
  | some p => exact .inl ⟨p, rfl, rfl⟩

section ReplyFields

variable (c : Connection) (m : Message) (q : Phase)

@[simp] theorem reply_toAgent : (c.reply m).toAgent = c.toAgent := by
  rcases reply_cases c m with ⟨p, _, h⟩ | ⟨_, h⟩ <;> simp [h]
@[simp] theorem reply_toProxy : (c.reply m).toProxy = c.toProxy := by
  rcases reply_cases c m with ⟨p, _, h⟩ | ⟨_, h⟩ <;> simp [h]
@[simp] theorem reply_agent : (c.reply m).agent = c.agent := by
  rcases reply_cases c m with ⟨p, _, h⟩ | ⟨_, h⟩ <;> simp [h]
@[simp] theorem reply_inbox : (c.reply m).proxy.inbox = c.proxy.inbox := by
  rcases reply_cases c m with ⟨p, _, h⟩ | ⟨_, h⟩ <;> simp [h]
@[simp] theorem reply_listener : (c.reply m).proxy.listener = c.proxy.listener := by
  rcases reply_cases c m with ⟨p, _, h⟩ | ⟨_, h⟩ <;> simp [h]

/-- A reply answers at most the pending promise of the listener. -/
theorem ask_reply :
    (c.reply m).ask q =
      if c.proxy.listener = some q ∧ c.ask q = .pending then .answered m else c.ask q := by
  rcases reply_cases c m with ⟨p, hp, h⟩ | ⟨hp, h⟩
  · rw [h, ask_complete, hp]
    by_cases hq : q = p
    · subst hq
      simp
    · have hne : p ≠ q := fun e => hq e.symm
      simp [hq, hne]
  · rw [h, hp]
    cases q <;> simp [ask]

/-- So an answered promise was answered before, or is the listener's and answered by it. -/
theorem answered_of_reply {m' : Message} (h : (c.reply m).ask q = .answered m') :
    c.ask q = .answered m' ∨ m' = m ∧ c.proxy.listener = some q ∧ c.ask q = .pending := by
  rw [ask_reply] at h
  split at h
  · next hq => exact .inr ⟨(Ask.answered.inj h).symm, hq⟩
  · exact .inl h

end ReplyFields

end RsoVoting.TwoPhase.Connection
