import RsoVoting.TwoPhase.Deadline
import Mathlib.Algebra.Group.Action.Defs
import Mathlib.Algebra.Order.BigOperators.Group.Finset

namespace RsoVoting.TwoPhase

open RsoVoting.Runs RsoVoting.Interleave

/-!
# Every transaction comes to its answer

Messages, frames, started operations and promises are used up and never made anew but by a
step that uses up something of more weight, so a run cannot go on forever, whatever the
environment does.  And it does not stop before the coordinator has answered: what the
coordinator waits for are promises, and these time out.

* `Connection.work` / `Tx.work` — a weight that every step lowers;
* `length_le_stepBound` — the length of every run is bounded by the hosts and the documents;
* `Awaiting` — whoever the coordinator waits for has been asked;
* `answer_in_reach` — so timeouts alone lead to an answer, from every state of every run.
-/

/-! ### The weight of a connection -/

/-- What is left to do of a started insert: the other documents, its completion, the reply. -/
def InsertMany.work (op : InsertMany) : ℕ :=
  if op.completed = none then op.docs.length - op.stored + 2 else 0

/-- What is left to do of a started delete. -/
def DeleteMany.work (op : DeleteMany) : ℕ :=
  if op.completed = none then (if op.applied then 2 else 3) else 0

/-- A promise can still time out. -/
def Ask.work : Ask → ℕ
  | .pending => 1
  | _        => 0

/-- A frame becomes at most an operation on as many documents. -/
def frameWork (documents : ℕ) : ℕ := documents + 4

/-- An agent can still be created, with its first frame, and stop. -/
def Status.work (documents : ℕ) : Status → ℕ
  | .absent  => frameWork documents + 2
  | .running => 1
  | .stopped => 0

/-- A `CommitActor` can still stop. -/
def Behaviour.work : Behaviour → ℕ
  | .stopped => 0
  | _        => 1

theorem Behaviour.work_of_ne {b : Behaviour} (h : b ≠ .stopped) : b.work = 1 := by
  cases b <;> first | rfl | exact absurd rfl h

theorem InsertMany.work_new (docs : List Document) :
    InsertMany.work { docs } = docs.length + 2 := rfl

theorem DeleteMany.work_new (txId : Option String) : DeleteMany.work { txId } = 3 := rfl

namespace Connection

/-- The promises of a connection that can still time out. -/
def asksWork (c : Connection) : ℕ := c.voteAsk.work + c.commitAsk.work + c.rollbackAsk.work

/-- The weight of a connection of a transaction with as many documents. -/
def work (documents : ℕ) (c : Connection) : ℕ :=
  c.proxy.inbox.length * (frameWork documents + 1) + c.toAgent.length * frameWork documents +
    c.toProxy.length + (c.agent.inserts.map InsertMany.work).sum +
    (c.agent.deletes.map DeleteMany.work).sum + c.agent.status.work documents +
    c.proxy.behaviour.work + c.asksWork

/-- An answer takes away from the promises. -/
theorem asksWork_setAsk_answered (c : Connection) (p : Phase) (m : Message)
    (hask : c.ask p = .pending) : (c.setAsk p (.answered m)).asksWork + 1 = c.asksWork := by
  cases p <;> simp_all [asksWork, setAsk, ask, Ask.work] <;> omega

theorem asksWork_complete_le (c : Connection) (p : Phase) (m : Message) :
    (c.complete p m).asksWork ≤ c.asksWork := by
  unfold complete
  split
  · next hask =>
    have h := asksWork_setAsk_answered c p m hask
    omega
  · exact Nat.le_refl _

theorem asksWork_reply_le (c : Connection) (m : Message) : (c.reply m).asksWork ≤ c.asksWork := by
  rcases reply_cases c m with ⟨p, -, h⟩ | ⟨-, h⟩ <;> rw [h]
  · exact asksWork_complete_le c p m
  · exact Nat.le_refl _

/-- Replacing an operation by one with less left to do. -/
theorem sum_map_set_lt {α : Type} {f : α → ℕ} {xs : List α} {k : ℕ} {x y : α}
    (hx : xs[k]? = some x) (hlt : f y < f x) :
    ((xs.set k y).map f).sum + (f x - f y) = (xs.map f).sum := by
  induction xs generalizing k with
  | nil => simp at hx
  | cons z xs ih =>
    cases k with
    | zero =>
      obtain rfl : z = x := by simpa using hx
      simp only [List.set_cons_zero, List.map_cons, List.sum_cons]
      omega
    | succ k =>
      have ih' := ih (k := k) (by simpa using hx)
      simp only [List.set_cons_succ, List.map_cons, List.sum_cons]
      omega

variable {txId : String} {documents : List Document} {c c' : Connection}
  {votes votes' : List Document} {a : ConnAction}

/-- **Every step of a connection lowers its weight.** -/
theorem Rule.work_lt (h : Rule txId documents c votes a c' votes')
    (hp : Payload txId documents c) : c'.work documents.length < c.work documents.length := by
  cases h with
  | requestVote hinbox hb =>
    have hbeh : c.proxy.behaviour.work = 1 :=
      Behaviour.work_of_ne (by rcases hb with hb | hb <;> simp [hb])
    have hnew : Behaviour.connecting.work = 1 := rfl
    simp only [work, asksWork, hinbox, hbeh, hnew, List.length_cons, Nat.add_mul]
    omega
  | requestCommit hinbox hb =>
    simp only [work, asksWork, hinbox, hb, List.length_cons, List.length_append, List.length_nil,
      Nat.add_mul]
    omega
  | @requestRollback rest hinbox hb =>
    have hle := asksWork_complete_le
      { c with
          proxy := { behaviour := .connected, listener := some .rollback, inbox := rest },
          toAgent := c.toAgent ++ [.rollback] } .rollback .ack
    have hsame : asksWork { c with
        proxy := { behaviour := .connected, listener := some .rollback, inbox := rest },
        toAgent := c.toAgent ++ [.rollback] } = c.asksWork := rfl
    rw [hsame] at hle
    simp only [work, complete_proxy, complete_toAgent, complete_toProxy, complete_agent, hinbox,
      hb, List.length_cons, List.length_append, List.length_nil, Nat.add_mul]
    omega
  | requestPoisonPill hinbox hb =>
    have hnew : Behaviour.stopped.work = 0 := rfl
    simp only [work, asksWork, hinbox, hnew, List.length_cons, Nat.add_mul]
    omega
  | requestDropped hinbox hb =>
    simp only [work, asksWork, hinbox, List.length_cons, Nat.add_mul]
    omega
  | commandFailed hb =>
    have hle := asksWork_reply_le c .voteError
    have hold : Behaviour.connecting.work = 1 := rfl
    have hnew : Behaviour.stopped.work = 0 := rfl
    unfold asksWork at hle
    simp only [work, asksWork, reply_inbox, reply_toAgent, reply_toProxy, reply_agent, hb, hold,
      hnew]
    omega
  | connected hb ha =>
    have hold : Behaviour.connecting.work = 1 := rfl
    have hnew : Behaviour.connected.work = 1 := rfl
    simp only [work, asksWork, hb, ha, hold, hnew, Status.work, List.length_append,
      List.length_cons, List.length_nil, Nat.add_mul]
    omega
  | @receiveReply r rest hframe hb =>
    have hle := asksWork_reply_le { c with toProxy := rest } (Reply.forward r)
    have hsame : asksWork { c with toProxy := rest } = c.asksWork := rfl
    -- the actor stays connected, or restarts
    have hbeh : (reply { c with toProxy := rest } (Reply.forward r)).proxy.behaviour.work ≤ 1 := by
      unfold Behaviour.work
      split <;> omega
    have hold : Behaviour.connected.work = 1 := rfl
    rw [hsame] at hle
    simp only [work, reply_inbox, reply_toAgent, reply_toProxy, reply_agent, hb, hold, hframe,
      List.length_cons]
    omega
  | receiveVote hframe ha =>
    simp only [work, asksWork, hframe, frameWork, List.length_append, List.length_cons,
      List.length_nil, Nat.add_mul]
    omega
  | @receiveCommit ds rest hframe ha hs =>
    obtain rfl := hp.saved ds hs
    simp only [work, asksWork, hframe, frameWork, List.length_cons, List.map_append,
      List.sum_append, List.map_cons, List.map_nil, List.sum_cons, List.sum_nil,
      InsertMany.work_new, Nat.add_mul]
    omega
  | receiveCommitThrows hframe ha =>
    simp only [work, asksWork, hframe, frameWork, DbAgentActor.restart, List.length_cons,
      Nat.add_mul]
    omega
  | receiveRollback hframe ha =>
    simp only [work, asksWork, hframe, frameWork, List.length_cons, List.map_append,
      List.sum_append, List.map_cons, List.map_nil, List.sum_cons, List.sum_nil,
      DeleteMany.work_new, Nat.add_mul]
    omega
  | peerClosed ha | stopAgent ha =>
    simp only [work, asksWork, ha, Status.work]
    omega
  | @storeNext k op doc hop hdoc hrun =>
    have hlt : op.stored < op.docs.length := (List.getElem?_eq_some_iff.mp hdoc).1
    have hwork : InsertMany.work { op with stored := op.stored + 1 } < op.work := by
      simp only [InsertMany.work, hrun, if_true]
      omega
    have hsum := sum_map_set_lt hop hwork
    simp only [work, asksWork]
    omega
  | @insertCompletes k op ok hop hrun hok =>
    have hwork : InsertMany.work { op with completed := some ok } + 2 ≤ op.work := by
      simp [InsertMany.work, hrun]
    have hlt : InsertMany.work { op with completed := some ok } < op.work := by omega
    have hsum := sum_map_set_lt hop hlt
    have hreply : (if ok then [Reply.ack] else []).length ≤ 1 := by cases ok <;> simp
    simp only [work, asksWork, List.length_append]
    omega
  | @applyDelete k op hop hrun hap =>
    have hwork : DeleteMany.work { op with applied := true } < op.work := by
      simp [DeleteMany.work, hrun, hap]
    have hsum := sum_map_set_lt hop hwork
    simp only [work, asksWork]
    omega
  | @deleteCompletes k op ok hop hrun hok =>
    have hwork : DeleteMany.work { op with completed := some ok } + 2 ≤ op.work := by
      cases hap : op.applied <;> simp [DeleteMany.work, hrun, hap]
    have hlt : DeleteMany.work { op with completed := some ok } < op.work := by omega
    have hsum := sum_map_set_lt hop hlt
    have hreply : (if ok then [Reply.ack] else []).length ≤ 1 := by cases ok <;> simp
    simp only [work, asksWork, List.length_append]
    omega
  | stopChild hb =>
    have hold := Behaviour.work_of_ne hb
    have hnew : Behaviour.stopped.work = 0 := rfl
    simp only [work, asksWork, hold, hnew]
    omega
  | timeout hask =>
    have h := asksWork_setAsk_answered c _ .unknownError hask
    simp only [work, setAsk_proxy, setAsk_toAgent, setAsk_toProxy, setAsk_agent]
    omega
  | loseCommand hframe =>
    simp only [work, asksWork, hframe, frameWork, List.length_cons, Nat.add_mul]
    omega
  | loseReply hframe =>
    simp only [work, asksWork, hframe, List.length_cons]
    omega

/-- A message of the coordinator adds the weight of one message and, if it asks, of one
    promise. -/
theorem work_sendAsk (c : Connection) (documents : ℕ) {p : Phase} (hp : c.ask p = .unsent) :
    (c.sendAsk p).work documents = c.work documents + frameWork documents + 2 := by
  have hasks : (c.sendAsk p).asksWork = c.asksWork + 1 := by
    cases p <;> simp_all [asksWork, sendAsk, setAsk, tell, ask, Ask.work] <;> omega
  simp only [work, sendAsk_inbox, sendAsk_toAgent, sendAsk_toProxy, sendAsk_agent,
    sendAsk_behaviour, hasks, List.length_append, List.length_cons, List.length_nil, Nat.add_mul]
  omega

theorem work_tell (c : Connection) (documents : ℕ) (r : Request) :
    (c.tell r).work documents = c.work documents + frameWork documents + 1 := by
  have hasks : (c.tell r).asksWork = c.asksWork := rfl
  simp only [work, tell_inbox, tell_toAgent, tell_toProxy, tell_agent, tell_behaviour, hasks,
    List.length_append, List.length_cons, List.length_nil, Nat.add_mul]
  omega

end Connection

/-! ### The weight of a transaction -/

variable {H : Type}

namespace Tx

/-- What a step of the coordinator adds to a connection at most. -/
def messageWork (cfg : Transaction H) : ℕ := frameWork cfg.documents.length + 2

/-- The weight of a transaction: a step of the coordinator outweighs what it sends. -/
def work (cfg : Transaction H) (tx : Tx) : ℕ :=
  (cfg.dbHostsConf.length * messageWork cfg + 1) * tx.coord.rank +
    ∑ i ∈ Finset.range cfg.dbHostsConf.length, (tx.conn i).work cfg.documents.length

/-- A step of the coordinator lowers the weight. -/
theorem Advance.work_lt {cfg : Transaction H} {tx tx' : Tx} (hc : Coordinated cfg tx)
    (h : tx.Advance cfg.minDbsCount tx') : tx'.work cfg < tx.work cfg := by
  have hrank := h.rank_lt hc
  have hconn : ∑ i ∈ Finset.range cfg.dbHostsConf.length,
      (tx'.conn i).work cfg.documents.length ≤
      ∑ i ∈ Finset.range cfg.dbHostsConf.length,
        ((tx.conn i).work cfg.documents.length + messageWork cfg) := by
    refine Finset.sum_le_sum fun i _ => ?_
    rcases h.conn_eq hc i with heq | ⟨p, hu, heq⟩ | heq <;> rw [heq, messageWork]
    · omega
    · rw [Connection.work_sendAsk _ _ hu, Nat.add_assoc]
    · rw [Connection.work_tell]
      omega
  rw [Finset.sum_add_distrib, Finset.sum_const, Finset.card_range, smul_eq_mul] at hconn
  have hmul : (cfg.dbHostsConf.length * messageWork cfg + 1) * (tx'.coord.rank + 1) ≤
      (cfg.dbHostsConf.length * messageWork cfg + 1) * tx.coord.rank :=
    Nat.mul_le_mul_left _ hrank
  rw [Nat.mul_add_one] at hmul
  unfold work
  omega

variable [DecidableEq H]

/-- **Every step of a transaction lowers its weight.** -/
theorem work_lt_of_step {cfg : Transaction H} {tx tx' : Tx} {votes votes' : H → List Document}
    {a : Action} (hinv : Invariant cfg tx) (h : Tx.step cfg tx votes a = some (tx', votes')) :
    tx'.work cfg < tx.work cfg := by
  cases a with
  | coordinator shuffled => exact (advance_of_step h).1.work_lt hinv.coordinated
  | connection i a =>
    obtain ⟨host, c, vs, hhost, -, hrule, rfl, rfl⟩ := connection_of_step h
    have hi : i ∈ Finset.range cfg.dbHostsConf.length :=
      Finset.mem_range.mpr (List.getElem?_eq_some_iff.mp hhost).1
    have hlt := hrule.work_lt (hinv.sound i).payload
    unfold work
    apply Nat.add_lt_add_left
    refine Finset.sum_lt_sum (fun j _ => ?_) ⟨i, hi, ?_⟩
    · show (Function.update tx.conn i c j).work _ ≤ _
      by_cases hj : j = i
      · subst hj
        rw [Function.update_self]
        exact hlt.le
      · rw [Function.update_of_ne hj]
    · show (Function.update tx.conn i c i).work _ < _
      rwa [Function.update_self]

end Tx

/-- The weight at the start: the bound on the length of a run. -/
def stepBound (cfg : Transaction H) : ℕ :=
  (cfg.dbHostsConf.length * Tx.messageWork cfg + 1) * (2 * cfg.dbHostsConf.length + 3) +
    cfg.dbHostsConf.length * (frameWork cfg.documents.length + 3)

theorem work_init (cfg : Transaction H) : (Tx.init cfg).work cfg = stepBound cfg := by
  have hconn : ∀ n, Connection.work n {} = frameWork n + 3 := fun n => by
    show 0 * (frameWork n + 1) + 0 * frameWork n + 0 + 0 + 0 + (frameWork n + 2) + 1 + 0 = _
    omega
  simp [Tx.work, Tx.init, stepBound, Coordinator.rank, hconn]

/-- **Every transaction comes to an end.**  However the environment behaves, a run takes no
    more steps than a bound in the number of hosts and of documents. -/
theorem length_le_stepBound [DecidableEq H] {cfg : Transaction H} {votes : H → List Document}
    {as : List Tx.Action} {s : State H}
    (hrun : run (transition cfg) (start cfg votes) as = some s) :
    as.length ≤ stepBound cfg := by
  have hle : as.length + s.1.work cfg ≤ (start cfg votes).1.work cfg :=
    length_add_le (I := fun s : State H => Invariant cfg s.1)
      (fun _ _ _ hinv h => ⟨hinv.step h, Tx.work_lt_of_step hinv h⟩) (Invariant.init cfg) hrun
  have hinit : (start cfg votes).1.work cfg = stepBound cfg := work_init cfg
  omega

/-- The accepted sample run keeps to the bound. -/
theorem length_le_stepBound_sample :
    Sample.acceptedRun.length ≤ stepBound Sample.transaction := by
  obtain ⟨s, hs⟩ := Option.isSome_iff_exists.mp
    (show (run (transition Sample.transaction) (start Sample.transaction fun _ => [])
      Sample.acceptedRun).isSome = true by decide)
  exact length_le_stepBound hs

/-! ### An answer is in reach -/

/-- Whoever the coordinator waits for has been asked. -/
def Awaiting (tx : Tx) : Prop :=
  ∀ p hosts, tx.coord.awaited = some (p, hosts) → ∀ i ∈ hosts, (tx.conn i).ask p ≠ .unsent

/-- The hosts the coordinator waits for are hosts of its list. -/
theorem Coordinated.valid_awaited {cfg : Transaction H} {tx : Tx} (hc : Coordinated cfg tx)
    {p : Phase} {hosts : List ℕ} (haw : tx.coord.awaited = some (p, hosts)) :
    ∀ i ∈ hosts, i < cfg.dbHostsConf.length := by
  intro i hi
  unfold Coordinated at hc
  cases hcoord : tx.coord with
  | selecting potential commiting => simp [hcoord, Coordinator.awaited] at haw
  | voting potential commiting dbHosts =>
    obtain ⟨rfl, rfl⟩ : .vote = p ∧ dbHosts = hosts := by
      simpa [hcoord, Coordinator.awaited] using haw
    simp only [hcoord] at hc
    exact hc.2.1 i (by simp [hi])
  | committing actors =>
    obtain ⟨rfl, rfl⟩ : .commit = p ∧ actors = hosts := by
      simpa [hcoord, Coordinator.awaited] using haw
    simp only [hcoord] at hc
    exact hc.1.valid i hi
  | rollingBack actors =>
    obtain ⟨rfl, rfl⟩ : .rollback = p ∧ actors = hosts := by
      simpa [hcoord, Coordinator.awaited] using haw
    simp only [hcoord] at hc
    exact hc.1.valid i hi
  | done actors r => simp [hcoord, Coordinator.awaited] at haw

/-- Where a step of the coordinator leaves it waiting, it has just asked. -/
theorem Tx.Advance.awaiting {minDbsCount : ℕ} {tx tx' : Tx} (h : tx.Advance minDbsCount tx') :
    Awaiting tx' := by
  have hsent : ∀ (conn : ℕ → Connection) (hosts : List ℕ) p, ∀ i ∈ hosts,
      (Tx.onEach conn hosts (·.sendAsk p) i).ask p ≠ .unsent := by
    intro conn hosts p i hi
    rw [onEach_of_mem hi, Connection.ask_sendAsk, if_pos rfl]
    exact Ask.noConfusion
  intro p hosts haw
  cases h with
  | startRound | sendCommit | startRollback =>
    obtain ⟨rfl, rfl⟩ := Prod.mk.inj (Option.some.inj haw)
    exact hsent _ _ _
  | notEnough | endRound | succeed | finishRollback => exact absurd haw (Option.some_ne_none _).symm

/-- **Step lemma.** -/
theorem Awaiting.step [DecidableEq H] {cfg : Transaction H} {tx tx' : Tx}
    {votes votes' : H → List Document} {a : Tx.Action} (haw : Awaiting tx)
    (h : Tx.step cfg tx votes a = some (tx', votes')) : Awaiting tx' := by
  cases a with
  | coordinator shuffled => exact (Tx.advance_of_step h).1.awaiting
  | connection i a =>
    obtain ⟨host, c, vs, -, -, hrule, rfl, rfl⟩ := Tx.connection_of_step h
    -- no step of a connection takes an ask back
    exact fun p hosts hw j hj hu =>
      haw p hosts hw j hj ((asksMove_update hrule j p).1.mp hu)

/-- At the start nobody is waited for. -/
theorem awaiting_init (cfg : Transaction H) : Awaiting (Tx.init cfg) := by
  intro p hosts haw
  exact absurd haw (Option.some_ne_none _).symm

/-- The promises of one state of a run and of a later one. -/
theorem AsksMove.refl (conn : ℕ → Connection) : AsksMove conn conn :=
  fun _ _ => ⟨Iff.rfl, fun _ h => h⟩

theorem AsksMove.trans {conn₁ conn₂ conn₃ : ℕ → Connection} (h₁₂ : AsksMove conn₁ conn₂)
    (h₂₃ : AsksMove conn₂ conn₃) : AsksMove conn₁ conn₃ :=
  fun i p => ⟨(h₂₃ i p).1.trans (h₁₂ i p).1, fun m h => (h₂₃ i p).2 m ((h₁₂ i p).2 m h)⟩

theorem isAnswered_of_asksMove {conn conn' : ℕ → Connection} (h : AsksMove conn conn') {i : ℕ}
    {p : Phase} (ha : ((conn i).ask p).isAnswered = true) :
    ((conn' i).ask p).isAnswered = true := by
  cases hp : (conn i).ask p with
  | answered m => rw [(h i p).2 m hp]; rfl
  | unsent     => rw [hp] at ha; exact absurd ha Bool.false_ne_true
  | pending    => rw [hp] at ha; exact absurd ha Bool.false_ne_true

/-- What still happens when nothing else does: the coordinator goes on, and promises time
    out. -/
def Tx.Action.isTimer : Tx.Action → Bool
  | .coordinator _               => true
  | .connection _ (.timeout _)   => true
  | .connection _ _              => false

section Reach

variable [DecidableEq H] {cfg : Transaction H} {s : State H}

/-- The state in which the ask of phase `p` to a host has timed out. -/
def timedOut (s : State H) (p : Phase) (i : ℕ) : State H :=
  ({ s.1 with
      conn := Function.update s.1.conn i ((s.1.conn i).setAsk p (.answered .unknownError)) }, s.2)

/-- A pending promise can time out. -/
theorem step_timeout {i : ℕ} (hi : i < cfg.dbHostsConf.length) {p : Phase}
    (hask : (s.1.conn i).ask p = .pending) :
    transition cfg s (.connection i (.timeout p)) = some (timedOut s p i) := by
  have hhost : cfg.dbHostsConf[i]? = some cfg.dbHostsConf[i] := List.getElem?_eq_getElem hi
  simp [transition, alone, Tx.step, hhost, Tx.permits, Connection.step, hask, timedOut]

/-- **All promises of a phase can time out**, one after the other. -/
theorem timeouts_answer {p : Phase} {hosts : List ℕ}
    (hval : ∀ i ∈ hosts, i < cfg.dbHostsConf.length)
    (hask : ∀ i ∈ hosts, (s.1.conn i).ask p ≠ .unsent) :
    ∃ later s', (∀ a ∈ later, Tx.Action.isTimer a = true) ∧
      run (transition cfg) s later = some s' ∧ s'.1.coord = s.1.coord ∧ s'.2 = s.2 ∧
      AsksMove s.1.conn s'.1.conn ∧ Tx.allAnswered s'.1.conn hosts p = true := by
  induction hosts with
  | nil => exact ⟨[], s, by simp, rfl, rfl, rfl, .refl _, rfl⟩
  | cons i hosts ih =>
    simp only [List.forall_mem_cons] at hval hask
    obtain ⟨later, s', htimer, hrun, hcoord, hvotes, hmove, hall⟩ := ih hval.2 hask.2
    cases hp : (s'.1.conn i).ask p with
    | unsent => exact absurd ((hmove i p).1.mp hp) hask.1
    | answered m =>
      refine ⟨later, s', htimer, hrun, hcoord, hvotes, hmove, ?_⟩
      simp only [Tx.allAnswered, List.all_cons, hp, Ask.isAnswered, Bool.true_and]
      exact hall
    | pending =>
      have hstep : AsksMove s'.1.conn (timedOut s' p i).1.conn :=
        asksMove_update (.timeout hp : Connection.Rule cfg.txId cfg.documents _ [] _ _ _)
      refine ⟨later ++ [.connection i (.timeout p)], timedOut s' p i, ?_, ?_, hcoord, hvotes,
        hmove.trans hstep, ?_⟩
      · simpa [or_imp, forall_and, Tx.Action.isTimer] using htimer
      · refine run_append_eq_some.mpr ⟨s', hrun, ?_⟩
        rw [run_cons, step_timeout hval.1 hp]
        rfl
      · -- this one has timed out, and the others keep their answers
        refine List.all_eq_true.mpr fun j hj => ?_
        rcases List.mem_cons.mp hj with rfl | hj
        · simp [timedOut, Connection.ask_setAsk, Ask.isAnswered]
        · exact isAnswered_of_asksMove hstep (List.all_eq_true.mp hall j hj)

/-- Whatever the coordinator awaits can time out. -/
theorem awaited_answer (hinv : Invariant cfg s.1) (haw : Awaiting s.1) :
    ∃ later s', (∀ a ∈ later, Tx.Action.isTimer a = true) ∧
      run (transition cfg) s later = some s' ∧ s'.1.coord = s.1.coord ∧ s'.2 = s.2 ∧
      ∀ p hosts, s'.1.coord.awaited = some (p, hosts) →
        Tx.allAnswered s'.1.conn hosts p = true := by
  cases hw : s.1.coord.awaited with
  | none => exact ⟨[], s, by simp, rfl, rfl, rfl, fun p hosts h => by simp [hw] at h⟩
  | some q =>
    obtain ⟨later, s', htimer, hrun, hcoord, hvotes, -, hall⟩ :=
      timeouts_answer (hinv.coordinated.valid_awaited hw) (haw _ _ hw)
    refine ⟨later, s', htimer, hrun, hcoord, hvotes, fun p hosts h => ?_⟩
    rw [hcoord, hw] at h
    obtain rfl := Option.some.inj h
    exact hall

/-- **From every state of every run an answer is in reach**, by the coordinator's own steps and
    timeouts, which leave the collections as they are. -/
theorem answer_in_reach {votes : H → List Document} {as : List Tx.Action}
    (hrun : run (transition cfg) (start cfg votes) as = some s) :
    ∃ later s', (∀ a ∈ later, Tx.Action.isTimer a = true) ∧
      run (transition cfg) s later = some s' ∧ (∃ r, Answered s' r) ∧ s'.2 = s.2 := by
  have hinv := invariant_of_run hrun
  have haw : Awaiting s.1 :=
    run_invariant (I := fun s : State H => Awaiting s.1) (fun _ _ _ haw h => haw.step h)
      (awaiting_init cfg) hrun
  clear hrun
  -- by induction on the steps the coordinator can still take
  induction hrank : s.1.coord.rank using Nat.strong_induction_on generalizing s with
  | _ n ih =>
    by_cases hdone : s.1.coord.isDone = true
    · refine ⟨[], s, by simp, rfl, ?_, rfl⟩
      cases hcoord : s.1.coord with
      | done actors r => exact ⟨r, actors, hcoord⟩
      | _ => simp [hcoord, Coordinator.isDone] at hdone
    · rw [Bool.not_eq_true] at hdone
      -- whatever is awaited times out
      obtain ⟨later, s₁, htimer, hrun₁, hcoord₁, hvotes₁, hall⟩ := awaited_answer hinv haw
      -- so the coordinator goes on
      obtain ⟨tx₂, hproceed⟩ := Option.isSome_iff_exists.mp
        (Tx.isSome_proceed (hcoord₁ ▸ hdone) hall (.refl _) :
          (s₁.1.proceed cfg.minDbsCount s₁.1.coord.candidates).isSome = true)
      have hstep : transition cfg s₁ (.coordinator s₁.1.coord.candidates) = some (tx₂, s₁.2) := by
        simp [transition, alone, Tx.step, hproceed]
      have hinv₁ : Invariant cfg s₁.1 :=
        run_invariant (I := fun s : State H => Invariant cfg s.1)
          (fun _ _ _ hinv h => hinv.step h) hinv hrun₁
      have hadv := Tx.advance_of_proceed hproceed
      have hlt := hadv.rank_lt hinv₁.coordinated
      rw [hcoord₁, hrank] at hlt
      obtain ⟨rest, s', hrest, hrun', hans, hvotes'⟩ :=
        @ih _ hlt (tx₂, s₁.2) (hinv₁.advance hadv) hadv.awaiting rfl
      refine ⟨later ++ .coordinator s₁.1.coord.candidates :: rest, s', ?_, ?_, hans,
        hvotes'.trans hvotes₁⟩
      · intro a ha
        rcases List.mem_append.mp ha with ha | ha
        · exact htimer a ha
        · rcases List.mem_cons.mp ha with rfl | ha
          · rfl
          · exact hrest a ha
      · exact run_append_eq_some.mpr ⟨s₁, hrun₁, run_cons_eq_some.mpr ⟨_, hstep, hrun'⟩⟩

/-- An answer is in reach while the sample transaction awaits its first votes. -/
theorem answer_in_reach_sample :
    ∃ s, run (transition Sample.transaction) (start Sample.transaction fun _ => [])
        [.coordinator [0, 1, 2]] = some s ∧
      ∃ later s', (∀ a ∈ later, Tx.Action.isTimer a = true) ∧
        run (transition Sample.transaction) s later = some s' ∧ (∃ r, Answered s' r) ∧
        s'.2 = s.2 := by
  obtain ⟨s, hs⟩ := Option.isSome_iff_exists.mp
    (show (run (transition Sample.transaction) (start Sample.transaction fun _ => [])
      [.coordinator [0, 1, 2]]).isSome = true by decide)
  exact ⟨s, hs, answer_in_reach hs⟩

end Reach

end RsoVoting.TwoPhase
