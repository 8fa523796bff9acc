import RsoVoting.TwoPhase.Storage

namespace RsoVoting.TwoPhase

open RsoVoting.Runs RsoVoting.Interleave

/-!
# When a rollback removes everything

`DbAgentActor` stops itself when its insert completes, with success or with failure, and a
stopped agent handles no `ROLLBACK`.  So the two-phase commit is not all-or-nothing, even on
a network that loses nothing.  This file says exactly when it is:

* `Connection.reliable` — the assumptions: nothing is lost on a live connection and no
  process crashes;
* `Connection.RollbackComing` — a rollback that will still take effect at the host;
* `Connection.undoable` / `Tx.undoable` — the steps that do not put documents out of the
  rollback's reach;
* `Undoing` — the invariant: after a rollback was sent, a host that holds documents of the
  transaction has a rollback coming;
* `error_leaves_nothing` — over runs of such steps, an `Error` leaves nothing behind.
-/

variable {H : Type}

namespace Connection

variable {txId : String} {documents : List Document} {c c' : Connection}
  {votes votes' : List Document} {a : ConnAction}

/-! ### Assumptions and conditions on the steps -/

/-- Frames get lost, and the agent loses its peer, only when an end of the connection is
    gone; the close is seen after all frames. -/
def reliable (c : Connection) : ConnAction → Bool
  | .loseCommand => c.agent.status = .stopped
  | .loseReply   => c.agent.status = .stopped ∨ c.proxy.behaviour = .stopped
  | .peerClosed  => c.proxy.behaviour = .stopped ∧ c.toAgent = []
  | _            => true

/-- A rollback is in the mailbox or on the wire of a running agent, or is a started delete
    that has not taken effect. -/
def RollbackComing (c : Connection) : Prop :=
  (c.agent.status = .running ∧ c.proxy.behaviour = .connected ∧
      Request.rollback ∈ c.proxy.inbox) ∨
    (c.agent.status = .running ∧ Command.rollback ∈ c.toAgent) ∨
    ∃ op ∈ c.agent.deletes, op.applied = false

instance : Decidable c.RollbackComing := inferInstanceAs (Decidable (_ ∨ _ ∨ _))

/-- The step does not put documents out of the rollback's reach; `held` are those that the
    host holds of the transaction. -/
def undoable (c : Connection) (held : List Document) : ConnAction → Bool
  -- the agent outlives a rollback that was sent and has not reached it
  | .stopAgent            => c.rollbackAsk = .unsent ∨ c.agent.deletes ≠ [] ∨ held = []
  -- the coordinator's children outlive a rollback in their mailbox
  | .stopChild            => Request.rollback ∉ c.proxy.inbox ∨ held = []
  -- no insert stores on after the delete
  | .mongo (.storeNext _) => c.rollbackAsk = .unsent ∨ c.RollbackComing
  | _                     => true

/-- Nothing is left to happen: every message has been handled or its addressee is gone,
    and the started operations have taken effect. -/
def settled (c : Connection) : Bool :=
  (c.proxy.behaviour = .stopped ∨ c.proxy.inbox = []) ∧
  (c.agent.status = .stopped ∨ c.toAgent = []) ∧
  (c.proxy.behaviour = .stopped ∨ c.toProxy = []) ∧
  (∀ op ∈ c.agent.inserts, op.completed ≠ none) ∧ ∀ op ∈ c.agent.deletes, op.applied = true

/-- On a settled connection no rollback is coming. -/
theorem not_rollbackComing_of_settled (h : c.settled = true) : ¬c.RollbackComing := by
  simp only [settled, decide_eq_true_eq] at h
  obtain ⟨hinbox, hframes, -, -, hdel⟩ := h
  rintro (⟨-, hb, hmem⟩ | ⟨hst, hmem⟩ | ⟨op, hop, hap⟩)
  · rcases hinbox with h | h
    · simp [hb] at h
    · simp [h] at hmem
  · rcases hframes with h | h
    · simp [hst] at h
    · simp [h] at hmem
  · simp [hdel op hop] at hap

/-! ### A `CommitActor` knows whom to answer -/

/-- While it is connecting or connected, a `CommitActor` has a listener. -/
def Listening (c : Connection) : Prop :=
  c.proxy.behaviour = .connecting ∨ c.proxy.behaviour = .connected → c.proxy.listener ≠ none

/-- With a listener, a reply changes the promises only. -/
theorem reply_eq_complete {m : Message} (h : c.proxy.listener ≠ none) :
    ∃ p, c.reply m = c.complete p m := by
  rcases reply_cases c m with ⟨p, -, hp⟩ | ⟨hnone, -⟩
  · exact ⟨p, hp⟩
  · exact absurd hnone h

theorem Listening.step (hc : Listening c) (h : Rule txId documents c votes a c' votes') :
    Listening c' := by
  cases h with
  | requestVote | requestCommit => exact fun _ => by simp
  | requestRollback => exact fun _ => by simp
  | requestPoisonPill | commandFailed | stopChild => exact fun hb => by simp at hb
  | connected hb => exact fun _ => hc (.inl hb)
  | @receiveReply r rest hframe hb =>
    obtain ⟨p, hreply⟩ := reply_eq_complete (c := { c with toProxy := rest })
      (m := Reply.forward r) (hc (.inr hb))
    rw [hreply]
    exact fun _ => by simpa using hc (.inr hb)
  | timeout => exact fun hb => by simpa using hc (by simpa using hb)
  | _ => exact hc

/-! ### What a reliable network adds to the invariant -/

/-- The vote reaches a new agent before anything else does, and a `PoisonPill` is the last
    message in a mailbox. -/
structure Orderly (txId : String) (documents : List Document) (c : Connection) : Prop where
  absent : c.agent.status = .absent → c.toAgent = [] ∧ c.proxy.behaviour ≠ .connected
  voted : c.agent.status = .running →
    (c.agent.txId = some txId ∧ c.agent.documentsToSave ≠ none) ∨
      ∃ rest, c.toAgent = .vote txId documents :: rest
  deletes : ∀ op ∈ c.agent.deletes, op.txId = some txId
  listener : Listening c
  poisonPill : Request.poisonPill ∉ c.proxy.inbox.dropLast

theorem Listening.initial : Listening {} := fun hb => by simp at hb

theorem Orderly.initial : Orderly txId documents {} :=
  ⟨by simp, by simp, by simp, .initial, by simp⟩

/-- A message behind the head of a mailbox is one behind the head before. -/
private theorem notMem_dropLast_of_cons {r : Request} {rest : List Request}
    (h : Request.poisonPill ∉ (r :: rest).dropLast) : Request.poisonPill ∉ rest.dropLast := by
  cases rest with
  | nil => simp
  | cons x rest => exact fun hmem => h (by simp [List.dropLast_cons_of_ne_nil, hmem])

theorem Orderly.step (hc : Orderly txId documents c) (hp : Payload txId documents c)
    (hrel : c.reliable a = true) (h : Rule txId documents c votes a c' votes') :
    Orderly txId documents c' := by
  have hlis' : Listening c' := hc.listener.step h
  obtain ⟨habs, hvoted, hdel, hlis, hpill⟩ := hc
  cases h with
  | requestVote hinbox hb =>
    refine ⟨fun ha => ⟨(habs ha).1, by simp⟩, hvoted, hdel, hlis', ?_⟩
    exact notMem_dropLast_of_cons (hinbox ▸ hpill)
  | requestCommit hinbox hb =>
    refine ⟨fun ha => absurd hb (habs ha).2, fun ha => ?_, hdel, hlis', ?_⟩
    · exact (hvoted ha).imp_right fun ⟨rest, hrest⟩ => ⟨rest ++ [.commit], by simp [hrest]⟩
    · exact notMem_dropLast_of_cons (hinbox ▸ hpill)
  | requestRollback hinbox hb =>
    refine ⟨fun ha => absurd hb (habs (by simpa using ha)).2, fun ha => ?_, by simpa using hdel,
      hlis', ?_⟩
    · have := hvoted (by simpa using ha)
      simpa using this.imp_right fun ⟨rest, hrest⟩ => ⟨rest ++ [.rollback], by simp [hrest]⟩
    · simpa using notMem_dropLast_of_cons (hinbox ▸ hpill)
  | requestPoisonPill hinbox hb =>
    refine ⟨fun ha => ⟨(habs ha).1, by simp⟩, hvoted, hdel, hlis', ?_⟩
    exact notMem_dropLast_of_cons (hinbox ▸ hpill)
  | requestDropped hinbox hb =>
    exact ⟨habs, hvoted, hdel, hlis', notMem_dropLast_of_cons (hinbox ▸ hpill)⟩
  | commandFailed hb =>
    exact ⟨fun ha => ⟨by simpa using (habs (by simpa using ha)).1, by simp⟩,
      by simpa using hvoted, by simpa using hdel, hlis', by simpa using hpill⟩
  | connected hb ha =>
    -- the vote is the first frame on the new wire
    exact ⟨by simp, fun _ => .inr ⟨[], by simp [(habs ha).1]⟩, hdel, hlis', hpill⟩
  | @receiveReply r rest hframe hb =>
    obtain ⟨p, hreply⟩ := reply_eq_complete (c := { c with toProxy := rest })
      (m := Reply.forward r) (hlis (.inr hb))
    rw [hreply] at hlis' ⊢
    exact ⟨by simpa using habs, by simpa using hvoted, by simpa using hdel, hlis',
      by simpa using hpill⟩
  | @receiveVote t ds rest hframe ha =>
    obtain ⟨rfl, rfl⟩ := hp.frames t ds (by simp [hframe])
    exact ⟨by simp [ha], fun _ => .inl ⟨rfl, by simp⟩, hdel, hlis', hpill⟩
  | @receiveCommit ds rest hframe ha hs =>
    -- a commit at the head of the wire: the vote before it has been handled
    have hv : c.agent.txId = some txId := by
      rcases hvoted ha with hv | ⟨rest, hrest⟩
      · exact hv.1
      · simp [hframe] at hrest
    exact ⟨by simp [ha], fun _ => .inl ⟨hv, by simp [hs]⟩, hdel, hlis', hpill⟩
  | receiveCommitThrows hframe ha hs =>
    -- the vote has set the documents
    rcases hvoted ha with hv | ⟨rest, hrest⟩
    · exact absurd hs hv.2
    · simp [hframe] at hrest
  | receiveRollback hframe ha =>
    -- so the delete that is started carries the id
    have hv : c.agent.txId = some txId ∧ c.agent.documentsToSave ≠ none := by
      rcases hvoted ha with hv | ⟨rest, hrest⟩
      · exact hv
      · simp [hframe] at hrest
    refine ⟨by simp [ha], fun _ => .inl hv, ?_, hlis', hpill⟩
    intro op hop
    rcases List.mem_append.mp hop with hop | hop
    · exact hdel op hop
    · obtain rfl := List.mem_singleton.mp hop
      exact hv.1
  | peerClosed ha => exact ⟨by simp, by simp, hdel, hlis', hpill⟩
  | storeNext => exact ⟨habs, hvoted, hdel, hlis', hpill⟩
  | insertCompletes => exact ⟨habs, hvoted, hdel, hlis', hpill⟩
  | @applyDelete k op hop | @deleteCompletes k op ok hop =>
    refine ⟨habs, hvoted, forall_mem_set hdel ?_ k, hlis', hpill⟩
    exact hdel op (List.mem_of_getElem? hop)
  | stopAgent ha => exact ⟨by simp, by simp, hdel, hlis', hpill⟩
  | stopChild hb => exact ⟨fun ha => ⟨(habs ha).1, by simp⟩, hvoted, hdel, hlis', hpill⟩
  | timeout =>
    exact ⟨by simpa using habs, by simpa using hvoted, by simpa using hdel, hlis',
      by simpa using hpill⟩
  | loseCommand hframe =>
    -- frames are lost only once their agent has stopped
    have ha : c.agent.status = .stopped := by simpa [reliable] using hrel
    exact ⟨by simp [ha], by simp [ha], hdel, hlis', hpill⟩
  | loseReply => exact ⟨habs, hvoted, hdel, hlis', hpill⟩

/-- Until the coordinator is done, a host that voted ok stays connected. -/
structure Live (c : Connection) : Prop where
  poisonPill : Request.poisonPill ∉ c.proxy.inbox
  connected : c.voteAsk = .answered .voteOk → c.proxy.behaviour = .connected

theorem Live.step (hc : Live c) (hlis : Listening c) (ha : a ≠ .stopChild)
    (h : Rule txId documents c votes a c' votes') : Live c' := by
  obtain ⟨hpill, hconn⟩ := hc
  cases h with
  | requestVote hinbox hb =>
    refine ⟨fun hmem => hpill (by simp [hinbox, hmem]), fun hv => ?_⟩
    -- a host that has voted is past connecting
    have hcon := hconn hv
    rcases hb with hb | hb <;> simp [hb] at hcon
  | requestCommit hinbox hb => exact ⟨fun hmem => hpill (by simp [hinbox, hmem]), fun _ => rfl⟩
  | requestRollback hinbox hb =>
    exact ⟨by simpa using fun hmem => hpill (by simp [hinbox, hmem]), fun _ => by simp⟩
  | requestPoisonPill hinbox => exact absurd (by simp [hinbox]) hpill
  | requestDropped hinbox => exact ⟨fun hmem => hpill (by simp [hinbox, hmem]), hconn⟩
  | commandFailed hb =>
    refine ⟨by simpa using hpill, fun hv => ?_⟩
    -- a connection that failed has not voted
    change (c.reply .voteError).ask .vote = _ at hv
    rw [ask_reply] at hv
    split at hv
    · simp at hv
    · simp [hconn hv] at hb
  | connected => exact ⟨hpill, fun _ => rfl⟩
  | @receiveReply r rest hframe hb =>
    obtain ⟨p, hreply⟩ := reply_eq_complete (c := { c with toProxy := rest })
      (m := Reply.forward r) (hlis (.inr hb))
    rw [hreply]
    exact ⟨by simpa using hpill, fun _ => by simpa using hb⟩
  | stopChild => exact absurd rfl ha
  | @timeout p =>
    refine ⟨by simpa using hpill, fun hv => ?_⟩
    -- the timeout of the vote ask answers it with `UnknownError`, the others leave it
    cases p
    case vote => simp [setAsk] at hv
    all_goals exact hconn hv
  | _ => exact ⟨hpill, hconn⟩

/-! ### A coming rollback stays, until it has taken effect -/

/-- A coming rollback is one of the tokens. -/
theorem RollbackComing.rollbacks_pos (hc : c.RollbackComing) : 0 < c.rollbacks := by
  unfold rollbacks
  rcases hc with ⟨-, -, hmem⟩ | ⟨-, hmem⟩ | ⟨op, hop, -⟩
  · have := List.count_pos_iff.mpr hmem
    omega
  · have := List.count_pos_iff.mpr hmem
    omega
  · have := List.length_pos_of_mem hop
    omega

/-- Once a delete has been started, it is the rollback that is coming. -/
theorem RollbackComing.exists_delete (hc : c.RollbackComing) (ht : Tokens c)
    (hdel : c.agent.deletes ≠ []) : ∃ op ∈ c.agent.deletes, op.applied = false := by
  have hle := ht.rollbacks_le
  have hlen := List.length_pos_iff.mpr hdel
  unfold rollbacks at hle
  rcases hc with ⟨-, -, hmem⟩ | ⟨-, hmem⟩ | hop
  · have := List.count_pos_iff.mpr hmem
    omega
  · have := List.count_pos_iff.mpr hmem
    omega
  · exact hop

/-- **Step lemma.**  Over a reliable network, a step that is undoable keeps a coming
    rollback, or leaves the host without documents of the transaction. -/
theorem RollbackComing.step (hc : c.RollbackComing) (hs : Sound txId documents c)
    (ho : Orderly txId documents c) (hrel : c.reliable a = true)
    (hun : c.undoable (ofTx txId votes) a = true) (h : Rule txId documents c votes a c' votes') :
    c'.RollbackComing ∨ ofTx txId votes' = [] := by
  cases h with
  | requestVote hinbox hb =>
    refine .inl (hc.imp_left fun ⟨_, hcon, _⟩ => ?_)
    rcases hb with hb | hb <;> simp [hb] at hcon
  | requestCommit hinbox hb =>
    exact .inl <| hc.imp (fun ⟨ha, _, hmem⟩ => ⟨ha, rfl, by simpa [hinbox] using hmem⟩)
      (.imp_left fun ⟨ha, hmem⟩ => ⟨ha, by simp [hmem]⟩)
  | requestRollback hinbox hb =>
    -- the only rollback goes from the mailbox to the wire
    rcases hc with ⟨ha, -, -⟩ | ⟨ha, -⟩ | hdel
    · exact .inl (.inr (.inl ⟨by simpa using ha, by simp⟩))
    · exact .inl (.inr (.inl ⟨by simpa using ha, by simp⟩))
    · exact .inl (.inr (.inr (by simpa using hdel)))
  | @requestPoisonPill rest hinbox =>
    -- the pill is the last message of its mailbox, so no rollback waits behind it
    refine .inl (.inr (hc.resolve_left ?_))
    rintro ⟨-, -, hmem⟩
    have hrest : rest = [] := by
      by_contra hne
      exact ho.poisonPill (by simp [hinbox, List.dropLast_cons_of_ne_nil hne])
    simp [hinbox, hrest] at hmem
  | requestDropped hinbox hb =>
    refine .inl (hc.imp_left fun ⟨ha, hcon, hmem⟩ => ⟨ha, hcon, ?_⟩)
    rcases hb with ⟨-, rfl⟩ | ⟨hne, -⟩
    · simpa [hinbox] using hmem
    · exact absurd hcon hne
  | commandFailed hb =>
    rcases hc with ⟨-, hcon, -⟩ | ⟨ha, hmem⟩ | hdel
    · simp [hb] at hcon
    · exact .inl (.inr (.inl ⟨by simpa using ha, by simpa using hmem⟩))
    · exact .inl (.inr (.inr (by simpa using hdel)))
  | connected hb ha =>
    -- an absent agent has no rollback on its way
    rcases hc with ⟨hrun, -, -⟩ | ⟨hrun, -⟩ | hdel
    · simp [ha] at hrun
    · simp [ha] at hrun
    · exact .inl (.inr (.inr hdel))
  | @receiveReply r rest hframe hb =>
    obtain ⟨p, hreply⟩ := reply_eq_complete (c := { c with toProxy := rest })
      (m := Reply.forward r) (ho.listener (.inr hb))
    rw [hreply]
    exact .inl (by simpa [RollbackComing] using hc)
  | receiveVote hframe =>
    exact .inl <| hc.imp_right (.imp_left fun ⟨ha, hmem⟩ => ⟨ha, by simpa [hframe] using hmem⟩)
  | receiveCommit hframe =>
    exact .inl <| hc.imp_right (.imp_left fun ⟨ha, hmem⟩ => ⟨ha, by simpa [hframe] using hmem⟩)
  | receiveCommitThrows hframe =>
    exact .inl <| hc.imp_right (.imp_left fun ⟨ha, hmem⟩ => ⟨ha, by simpa [hframe] using hmem⟩)
  | receiveRollback hframe =>
    -- from the wire to a started delete
    exact .inl (.inr (.inr ⟨{ txId := c.agent.txId }, by simp, rfl⟩))
  | peerClosed ha =>
    -- the close comes after all frames
    simp only [reliable, decide_eq_true_eq] at hrel
    rcases hc with ⟨-, hcon, -⟩ | ⟨-, hmem⟩ | hdel
    · simp [hrel.1] at hcon
    · simp [hrel.2] at hmem
    · exact .inl (.inr (.inr hdel))
  | storeNext | insertCompletes => exact .inl hc
  | @applyDelete k op hop =>
    -- the delete takes effect, and nothing of the transaction is left
    have htx := ho.deletes op (List.mem_of_getElem? hop)
    exact .inr (htx ▸ ofTx_delete_self txId votes)
  | @deleteCompletes k op ok hop hrun hok =>
    refine .inl (hc.imp_right (.imp_right fun ⟨op', hop', hap⟩ => ?_))
    obtain ⟨j, hj⟩ := List.getElem?_of_mem hop'
    -- a delete that fails without taking effect keeps its connection from settling
    by_cases hjk : j = k
    · subst hjk
      obtain rfl : op' = op := Option.some.inj (hj.symm.trans hop)
      have hlt := (List.getElem?_eq_some_iff.mp hop).1
      exact ⟨{ op' with completed := some ok }, List.mem_set hlt _, hap⟩
    · refine ⟨op', List.mem_of_getElem? (i := j) ?_, hap⟩
      rwa [List.getElem?_set_ne (Ne.symm hjk)]
  | stopAgent ha =>
    simp only [undoable, decide_eq_true_eq] at hun
    rcases hun with hu | hdel | hheld
    · exact absurd (hs.tokens.rollbacks_unsent hu) (Nat.ne_of_gt hc.rollbacks_pos)
    -- a started delete outlives its agent
    · exact .inl (.inr (.inr (hc.exists_delete hs.tokens hdel)))
    · exact .inr hheld
  | stopChild hb =>
    simp only [undoable, decide_eq_true_eq] at hun
    rcases hun with hnot | hheld
    -- the rollback has left the mailbox already
    · exact .inl (.inr (hc.resolve_left fun ⟨_, _, hmem⟩ => hnot hmem))
    · exact .inr hheld
  | timeout => exact .inl (by simpa [RollbackComing] using hc)
  | loseCommand hframe =>
    have ha : c.agent.status = .stopped := by simpa [reliable] using hrel
    rcases hc with ⟨hrun, -⟩ | ⟨hrun, -⟩ | hdel
    · simp [ha] at hrun
    · simp [ha] at hrun
    · exact .inl (.inr (.inr hdel))
  | loseReply => exact .inl hc

/-! ### Where documents of the transaction come from -/

/-- Documents appear only as an insert stores them. -/
theorem Rule.held (h : Rule txId documents c votes a c' votes') (hheld : ofTx txId votes' ≠ []) :
    ofTx txId votes ≠ [] ∨ (∃ k, a = .mongo (.storeNext k)) ∧ c.agent.inserts ≠ [] := by
  cases h with
  | @storeNext k op doc hop =>
    exact .inr ⟨⟨k, rfl⟩, List.ne_nil_of_mem (List.mem_of_getElem? hop)⟩
  | @applyDelete k op hop =>
    have hsub : (ofTx txId (votes.filter fun d => !matchesTxId op.txId d)).Sublist
        (ofTx txId votes) := List.Sublist.filter _ List.filter_sublist
    exact .inl fun hnil => hheld (List.sublist_nil.mp (hnil ▸ hsub))
  | _ => exact .inl hheld

/-- A started insert stays on record. -/
theorem Rule.inserts_ne_nil (h : Rule txId documents c votes a c' votes')
    (hne : c.agent.inserts ≠ []) : c'.agent.inserts ≠ [] := by
  cases h with
  | requestRollback | commandFailed | receiveReply | timeout => simpa using hne
  | receiveCommit => simp
  | storeNext | insertCompletes =>
    exact fun hnil => hne (List.eq_nil_of_length_eq_zero (by simpa using congrArg List.length hnil))
  | _ => exact hne

/-! ### The coordinator's messages -/

theorem Listening.sendAsk (hc : Listening c) (p : Phase) : Listening (c.sendAsk p) := by
  simpa [Listening] using hc

theorem Listening.tell (hc : Listening c) (r : Request) : Listening (c.tell r) := hc

theorem Orderly.sendAsk (hc : Orderly txId documents c) (hl : Live c) (p : Phase) :
    Orderly txId documents (c.sendAsk p) :=
  ⟨by simpa using hc.absent, by simpa using hc.voted, by simpa using hc.deletes,
    hc.listener.sendAsk p, by simpa using hl.poisonPill⟩

theorem Orderly.tell (hc : Orderly txId documents c) (hl : Live c) (r : Request) :
    Orderly txId documents (c.tell r) :=
  ⟨hc.absent, hc.voted, hc.deletes, hc.listener, by simpa using hl.poisonPill⟩

theorem Live.sendAsk (hc : Live c) (p : Phase) : Live (c.sendAsk p) where
  poisonPill := by
    cases p <;> simpa [Phase.request] using hc.poisonPill
  connected hv := by
    have hask := ask_sendAsk c p .vote
    rw [show (c.sendAsk p).ask .vote = .answered .voteOk from hv] at hask
    split at hask
    · simp at hask
    · simpa using hc.connected hask.symm

/-- A rollback sent to a running agent that voted ok is coming. -/
theorem RollbackComing.sendAsk (ho : Orderly txId documents c) (hl : Live c)
    (hv : c.voteAsk = .answered .voteOk) (ha : c.agent.status ≠ .stopped) :
    (c.sendAsk .rollback).RollbackComing := by
  have hcon := hl.connected hv
  have hrun : c.agent.status = .running := by
    cases hst : c.agent.status with
    | absent  => exact absurd hcon (ho.absent hst).2
    | running => rfl
    | stopped => exact absurd hst ha
  exact .inl ⟨by simpa using hrun, by simpa using hcon, by simp [Phase.request]⟩

theorem RollbackComing.tell (hc : c.RollbackComing) (r : Request) :
    (c.tell r).RollbackComing :=
  hc.imp_left fun ⟨ha, hcon, hmem⟩ => ⟨ha, hcon, by simp [hmem]⟩

end Connection

/-! ### The condition on a whole run -/

/-- What the host of a connection holds of the transaction. -/
def heldAt (cfg : Transaction H) (s : State H) (i : ℕ) : List Document :=
  match cfg.dbHostsConf[i]? with
  | some host => ofTx cfg.txId (s.2 host)
  | none      => []

theorem heldAt_eq {cfg : Transaction H} {s : State H} {i : ℕ} {host : H}
    (hi : cfg.dbHostsConf[i]? = some host) : heldAt cfg s i = ofTx cfg.txId (s.2 host) := by
  simp [heldAt, hi]

/-- The network is reliable in this step. -/
def reliable (s : State H) : Tx.Action → Bool
  | .coordinator _  => true
  | .connection i a => (s.1.conn i).reliable a

/-- The step puts no documents out of the reach of a rollback. -/
def undoable (cfg : Transaction H) (s : State H) : Tx.Action → Bool
  | .coordinator _ =>
    match s.1.coord with
    | .committing actors =>
      -- the agents that hold documents have not stopped before a rollback is sent
      Tx.allAck s.1.conn actors .commit ∨
        ∀ i ∈ actors, (s.1.conn i).agent.status ≠ .stopped ∨ heldAt cfg s i = []
    | _ => true
  | .connection i a => (s.1.conn i).undoable (heldAt cfg s i) a

/-- Nothing is left to happen on any connection. -/
def Settled (cfg : Transaction H) (s : State H) : Prop :=
  ∀ i < cfg.dbHostsConf.length, (s.1.conn i).settled = true

instance (cfg : Transaction H) (s : State H) : Decidable (Settled cfg s) :=
  inferInstanceAs (Decidable (∀ i < _, _))

/-- **All or nothing on failure**, over the runs whose steps `P` allows: when the
    coordinator has answered `Error` and everything has settled, no host holds a document
    of the transaction. -/
def AllOrNothing [DecidableEq H] (cfg : Transaction H) (votes : H → List Document)
    (P : State H → Tx.Action → Prop) : Prop :=
  ∀ as s, Along (transition cfg) P (start cfg votes) as →
    run (transition cfg) (start cfg votes) as = some s → Answered s .error → Settled cfg s →
      ∀ host ∈ cfg.dbHostsConf, ofTx cfg.txId (s.2 host) = []

/-! ### The invariant of such runs -/

/-- The actors that a rollback has been sent to. -/
def Coordinator.rolledBack : Coordinator → Option (List ℕ)
  | .rollingBack actors  => some actors
  | .done actors .error  => actors
  | _                    => none

theorem Coordinator.selected_of_rolledBack {coord : Coordinator} {actors : List ℕ}
    (h : coord.rolledBack = some actors) : coord.selected = some actors := by
  unfold rolledBack at h
  split at h
  · exact h
  · exact h
  · simp at h

/-- The host holds nothing of the transaction, or one of its connections has a rollback
    coming. -/
def Undone (cfg : Transaction H) (s : State H) (host : H) : Prop :=
  ofTx cfg.txId (s.2 host) = [] ∨
    ∃ i, cfg.dbHostsConf[i]? = some host ∧ (s.1.conn i).RollbackComing

/-- What holds along a run whose steps are reliable and undoable. -/
structure Undoing (cfg : Transaction H) (s : State H) : Prop where
  invariant : Invariant cfg s.1
  orderly : ∀ i, Connection.Orderly cfg.txId cfg.documents (s.1.conn i)
  live : s.1.coord.isDone = false → ∀ i, Connection.Live (s.1.conn i)
  /-- Held documents were stored over one of the host's connections. -/
  traced : ∀ host, ofTx cfg.txId (s.2 host) ≠ [] →
    ∃ i, cfg.dbHostsConf[i]? = some host ∧ (s.1.conn i).agent.inserts ≠ []
  asked : ∀ actors, s.1.coord.rolledBack = some actors →
    ∀ i ∈ actors, (s.1.conn i).rollbackAsk ≠ .unsent
  undone : ∀ actors, s.1.coord.rolledBack = some actors → ∀ host, Undone cfg s host

theorem Undoing.start {cfg : Transaction H} {votes : H → List Document}
    (hfresh : Fresh cfg votes) : Undoing cfg (start cfg votes) where
  invariant := .init cfg
  orderly _ := .initial
  live _ _ := ⟨by simp [TwoPhase.start, Tx.init], by simp [TwoPhase.start, Tx.init]⟩
  traced host hheld := absurd (hfresh host) hheld
  asked actors h := by simp [TwoPhase.start, Tx.init, Coordinator.rolledBack] at h
  undone actors h := by simp [TwoPhase.start, Tx.init, Coordinator.rolledBack] at h

/-- An actor of the selection whose agent has started an insert was sent the rollback. -/
theorem Undoing.asked_of_inserts {cfg : Transaction H} {s : State H} (hI : Undoing cfg s)
    {actors : List ℕ} (hroll : s.1.coord.rolledBack = some actors) {i : ℕ}
    (hins : (s.1.conn i).agent.inserts ≠ []) : (s.1.conn i).rollbackAsk ≠ .unsent := by
  obtain ⟨actors', hsel, -, hactor⟩ := hI.invariant.elected_of_asked fun hu =>
    hins ((hI.invariant.sound i).tokens.inserts_eq_nil hu)
  obtain rfl : actors = actors' :=
    Option.some.inj ((Coordinator.selected_of_rolledBack hroll).symm.trans hsel)
  exact hI.asked actors hroll i hactor

/-- Messages to the `CommitActor`s leave the agents as they are. -/
private theorem traced_onEach {cfg : Transaction H} {s : State H}
    (htraced : ∀ host, ofTx cfg.txId (s.2 host) ≠ [] →
      ∃ i, cfg.dbHostsConf[i]? = some host ∧ (s.1.conn i).agent.inserts ≠ [])
    (hosts : List ℕ) (f : Connection → Connection) (hf : ∀ c, (f c).agent = c.agent) :
    ∀ host, ofTx cfg.txId (s.2 host) ≠ [] → ∃ i, cfg.dbHostsConf[i]? = some host ∧
      (Tx.onEach s.1.conn hosts f i).agent.inserts ≠ [] := by
  intro host hheld
  obtain ⟨i, hi, hins⟩ := htraced host hheld
  refine ⟨i, hi, ?_⟩
  by_cases hmem : i ∈ hosts
  · rwa [onEach_of_mem hmem, hf]
  · rwa [onEach_of_notMem hmem]

/-- **Step lemma of the coordinator.** -/
theorem Undoing.advance {cfg : Transaction H} {tx tx' : Tx} {votes : H → List Document}
    {shuffled : List ℕ} (hI : Undoing cfg (tx, votes))
    (hun : undoable cfg (tx, votes) (.coordinator shuffled) = true)
    (h : tx.Advance cfg.minDbsCount tx') : Undoing cfg (tx', votes) := by
  have hinv := hI.invariant.advance h
  have hlive : tx.coord.isDone = false → ∀ i, Connection.Live (tx.conn i) := hI.live
  have hask : tx.coord.isDone = false → ∀ (hosts : List ℕ) (p : Phase),
      (∀ i, Connection.Orderly cfg.txId cfg.documents (Tx.onEach tx.conn hosts (·.sendAsk p) i)) ∧
      ∀ i, Connection.Live (Tx.onEach tx.conn hosts (·.sendAsk p) i) := fun hd hosts p =>
    ⟨forall_onEach (·.sendAsk p) hI.orderly fun i _ => (hI.orderly i).sendAsk (hlive hd i) p,
      forall_onEach (·.sendAsk p) (hlive hd) fun i _ => (hlive hd i).sendAsk p⟩
  have htell : tx.coord.isDone = false → ∀ (hosts : List ℕ) (r : Request) i,
      Connection.Orderly cfg.txId cfg.documents (Tx.onEach tx.conn hosts (·.tell r) i) :=
    fun hd hosts r =>
      forall_onEach (·.tell r) hI.orderly fun i _ => (hI.orderly i).tell (hlive hd i) r
  have hasked := fun p hosts =>
    traced_onEach hI.traced hosts (·.sendAsk p) (Connection.sendAsk_agent · p)
  have htold := fun r hosts => traced_onEach hI.traced hosts (·.tell r) (Connection.tell_agent · r)
  cases h with
  | notEnough hcoord =>
    exact ⟨hinv, hI.orderly, by simp [Coordinator.isDone], hI.traced,
      by simp [Coordinator.rolledBack], by simp [Coordinator.rolledBack]⟩
  | startRound hcoord =>
    obtain ⟨ho, hl⟩ := hask (by simp [hcoord, Coordinator.isDone]) _ .vote
    exact ⟨hinv, ho, fun _ => hl, hasked .vote _, by simp [Coordinator.rolledBack],
      by simp [Coordinator.rolledBack]⟩
  | endRound hcoord =>
    exact ⟨hinv, hI.orderly, fun _ => hlive (by simp [hcoord, Coordinator.isDone]), hI.traced,
      by simp [Coordinator.rolledBack], by simp [Coordinator.rolledBack]⟩
  | sendCommit hcoord =>
    obtain ⟨ho, hl⟩ := hask (by simp [hcoord, Coordinator.isDone]) _ .commit
    exact ⟨hinv, ho, fun _ => hl, hasked .commit _, by simp [Coordinator.rolledBack],
      by simp [Coordinator.rolledBack]⟩
  | succeed hcoord =>
    exact ⟨hinv, htell (by simp [hcoord, Coordinator.isDone]) _ _, by simp [Coordinator.isDone],
      htold .poisonPill _, by simp [Coordinator.rolledBack], by simp [Coordinator.rolledBack]⟩
  | @startRollback actors hcoord hans hack =>
    have hd : tx.coord.isDone = false := by simp [hcoord, Coordinator.isDone]
    obtain ⟨ho, hl⟩ := hask hd actors .rollback
    refine ⟨hinv, ho, fun _ => hl, hasked .rollback _, ?_, ?_⟩
    -- every actor of the selection has just been asked
    · intro actors' hroll i hi
      obtain rfl : actors = actors' := by simpa [Coordinator.rolledBack] using hroll
      have hsent := Connection.ask_sendAsk (tx.conn i) .rollback .rollback
      rw [if_pos rfl] at hsent
      dsimp only
      rw [onEach_of_mem hi]
      exact fun hu => by simp [show _ = Ask.unsent from hu, Connection.ask] at hsent
    · -- a holder's agent is an actor of the selection that has not stopped
      intro actors' _ host
      by_cases hheld : ofTx cfg.txId (votes host) = []
      · exact .inl hheld
      obtain ⟨i, hi, hins⟩ := hI.traced host hheld
      obtain ⟨actors'', hsel, helected, hactor⟩ := hI.invariant.elected_of_asked fun hu =>
        hins ((hI.invariant.sound i).tokens.inserts_eq_nil hu)
      obtain rfl : actors = actors'' := by simpa [hcoord, Coordinator.selected] using hsel
      have hst : (tx.conn i).agent.status ≠ .stopped := by
        simp only [undoable, hcoord, hack, Bool.false_eq_true, false_or, decide_eq_true_eq] at hun
        refine (hun i hactor).resolve_right ?_
        rwa [heldAt_eq hi]
      refine .inr ⟨i, hi, ?_⟩
      dsimp only
      rw [onEach_of_mem hactor]
      exact .sendAsk (hI.orderly i) (hlive hd i) (helected.votedOk i hactor) hst
  | @finishRollback actors hcoord hans =>
    have hroll : tx.coord.rolledBack = some actors := by simp [hcoord, Coordinator.rolledBack]
    refine ⟨hinv, htell (by simp [hcoord, Coordinator.isDone]) _ _, by simp [Coordinator.isDone],
      htold .poisonPill _, ?_, ?_⟩
    · intro actors' hroll' i hi
      obtain rfl : actors = actors' := by simpa [Coordinator.rolledBack] using hroll'
      have hsame : (Tx.onEach tx.conn actors (·.tell .poisonPill) i).ask .rollback =
          (tx.conn i).ask .rollback := ask_onEach_tell i
      exact fun hu => hI.asked actors hroll i hi (hsame.symm.trans hu)
    · intro actors' _ host
      -- a pill goes behind a rollback that is still in a mailbox
      rcases hI.undone actors hroll host with hnone | ⟨i, hi, hc⟩
      · exact .inl hnone
      refine .inr ⟨i, hi, ?_⟩
      dsimp only
      by_cases hmem : i ∈ actors
      · rw [onEach_of_mem hmem]
        exact hc.tell .poisonPill
      · rwa [onEach_of_notMem hmem]

section Runs

variable [DecidableEq H]

section ConnectionStep

variable {cfg : Transaction H} {tx : Tx} {votes : H → List Document} {k : ℕ} {host : H}
  {c : Connection} {vs : List Document} {a : Connection.ConnAction}

/-- After a step of connection `k`, held documents were still stored over a connection. -/
theorem Undoing.traced_connection (hI : Undoing cfg (tx, votes))
    (hhost : cfg.dbHostsConf[k]? = some host)
    (hrule : Connection.Rule cfg.txId cfg.documents (tx.conn k) (votes host) a c vs) {host' : H}
    (hheld : ofTx cfg.txId (Function.update votes host vs host') ≠ []) :
    ∃ i, cfg.dbHostsConf[i]? = some host' ∧
      (Function.update tx.conn k c i).agent.inserts ≠ [] := by
  have hold : ∃ i, cfg.dbHostsConf[i]? = some host' ∧ (tx.conn i).agent.inserts ≠ [] := by
    by_cases hh : host' = host
    · subst hh
      rw [Function.update_self] at hheld
      rcases hrule.held hheld with hheld | ⟨-, hins⟩
      · exact hI.traced _ hheld
      · exact ⟨k, hhost, hins⟩
    · rw [Function.update_of_ne hh] at hheld
      exact hI.traced _ hheld
  obtain ⟨i, hi, hins⟩ := hold
  refine ⟨i, hi, ?_⟩
  by_cases hik : i = k
  · subst hik
    rw [Function.update_self]
    exact hrule.inserts_ne_nil hins
  · rwa [Function.update_of_ne hik]

/-- After a reliable and undoable step of connection `k`, a rollback that was sent is still
    coming to every host that holds documents. -/
theorem Undoing.undone_connection (hI : Undoing cfg (tx, votes))
    (hhost : cfg.dbHostsConf[k]? = some host)
    (hrel : (tx.conn k).reliable a = true)
    (hun : (tx.conn k).undoable (ofTx cfg.txId (votes host)) a = true)
    (hrule : Connection.Rule cfg.txId cfg.documents (tx.conn k) (votes host) a c vs)
    {actors : List ℕ} (hroll : tx.coord.rolledBack = some actors) (host' : H) :
    Undone cfg ({ tx with conn := Function.update tx.conn k c }, Function.update votes host vs)
      host' := by
  have hkeep (hc : (tx.conn k).RollbackComing) :
      c.RollbackComing ∨ ofTx cfg.txId vs = [] :=
    hc.step (hI.invariant.sound k) (hI.orderly k) hrel hun hrule
  unfold Undone
  dsimp only
  by_cases hh : host' = host
  · subst hh
    rw [Function.update_self]
    rcases hI.undone actors hroll host' with hnil | ⟨i, hi, hc⟩
    · -- documents can only come from an insert, and its rollback is still coming
      by_cases hheld : ofTx cfg.txId vs = []
      · exact .inl hheld
      obtain ⟨⟨n, rfl⟩, hins⟩ := (hrule.held hheld).resolve_left (not_not_intro hnil)
      simp only [Connection.undoable, decide_eq_true_eq] at hun
      have hc := hkeep (hun.resolve_left (hI.asked_of_inserts hroll hins))
      exact .inr ⟨k, hhost, by simpa using hc.resolve_right hheld⟩
    -- the rollback that is coming is over this connection or over another one to the host
    · by_cases hik : i = k
      · subst hik
        exact (hkeep hc).symm.imp_right fun hc => ⟨i, hhost, by simpa using hc⟩
      · exact .inr ⟨i, hi, by rwa [Function.update_of_ne hik]⟩
  · rw [Function.update_of_ne hh]
    -- another host: the connection its rollback comes over did not move
    refine (hI.undone actors hroll host').imp_right fun ⟨i, hi, hc⟩ => ⟨i, hi, ?_⟩
    have hik : i ≠ k := by
      rintro rfl
      exact hh (Option.some.inj (hi.symm.trans hhost))
    rwa [Function.update_of_ne hik]

end ConnectionStep

/-- **Step lemma.** -/
theorem Undoing.step {cfg : Transaction H} {s s' : State H} {a : Tx.Action}
    (hI : Undoing cfg s) (hrel : reliable s a = true) (hun : undoable cfg s a = true)
    (h : transition cfg s a = some s') : Undoing cfg s' := by
  obtain ⟨tx, votes⟩ := s
  obtain ⟨tx', votes'⟩ := s'
  cases a with
  | coordinator shuffled =>
    obtain ⟨hadv, rfl⟩ := Tx.advance_of_step h
    exact hI.advance hun hadv
  | connection k a =>
    have hstep : Tx.step cfg tx votes (.connection k a) = some (tx', votes') := h
    have hinv : Invariant cfg tx' := hI.invariant.step hstep
    obtain ⟨host, c, vs, hhost, hperm, hrule, rfl, rfl⟩ := Tx.connection_of_step h
    have hrel' : (tx.conn k).reliable a = true := hrel
    have hun' : (tx.conn k).undoable (ofTx cfg.txId (votes host)) a = true := by
      rw [← heldAt_eq (s := (tx, votes)) hhost]
      exact hun
    refine ⟨hinv, ?_, ?_, fun host' => hI.traced_connection hhost hrule, ?_, ?_⟩
    · exact (Function.forall_update_iff tx.conn fun _ c =>
        Connection.Orderly cfg.txId cfg.documents c).mpr
          ⟨(hI.orderly k).step (hI.invariant.sound k).payload hrel' hrule,
            fun j _ => hI.orderly j⟩
    · intro hd
      have hchild : a ≠ .stopChild := by
        rintro rfl
        simp [Tx.permits, show tx.coord.isDone = false from hd] at hperm
      exact (Function.forall_update_iff tx.conn fun _ c => Connection.Live c).mpr
        ⟨(hI.live hd k).step (hI.orderly k).listener hchild hrule, fun j _ => hI.live hd j⟩
    · exact fun actors hroll i hi hu =>
        hI.asked actors hroll i hi ((asksMove_update hrule i .rollback).1.mp hu)
    · exact fun actors hroll => hI.undone_connection hhost hrel' hun' hrule hroll

/-- **Run lemma.** -/
theorem undoing_of_run {cfg : Transaction H} {votes : H → List Document}
    (hfresh : Fresh cfg votes) {as : List Tx.Action} {s : State H}
    (hP : Along (transition cfg) (fun s a => reliable s a = true ∧ undoable cfg s a = true)
      (start cfg votes) as)
    (hrun : run (transition cfg) (start cfg votes) as = some s) : Undoing cfg s :=
  run_invariant_along (fun _ _ _ hI hP h => hI.step hP.1 hP.2 h) (.start hfresh) hP hrun

/-- **All or nothing, as far as it goes.**  Over a reliable network, every run whose steps
    keep the documents in reach of the rollback leaves nothing behind when it ends in
    `Error`. -/
theorem error_leaves_nothing (cfg : Transaction H) (votes : H → List Document)
    (hfresh : Fresh cfg votes) :
    AllOrNothing cfg votes fun s a => reliable s a = true ∧ undoable cfg s a = true := by
  intro as s hP hrun hanswer hsettled host hmem
  have hI := undoing_of_run hfresh hP hrun
  by_contra hheld
  -- held documents were stored over some connection, so there was a selection to roll back
  obtain ⟨i, -, hins⟩ := hI.traced host hheld
  obtain ⟨actors, hsel, -, -⟩ := hI.invariant.elected_of_asked fun hu =>
    hins ((hI.invariant.sound i).tokens.inserts_eq_nil hu)
  obtain ⟨actors', hdone⟩ := hanswer
  have hroll : s.1.coord.rolledBack = some actors := by
    simpa [hdone, Coordinator.rolledBack, Coordinator.selected] using hsel
  -- its rollback is still coming, and yet everything has settled
  obtain ⟨j, hj, hc⟩ := (hI.undone actors hroll host).resolve_left hheld
  exact Connection.not_rollbackComing_of_settled
    (hsettled j (List.getElem?_eq_some_iff.mp hj).1) hc

end Runs

/-! ### A run that leaves documents, and one that does not

In the first, two hosts commit; one insert succeeds and its agent stops, the other fails.  In
the second, the single host's commit times out while its insert is running, so the rollback
still finds the agent.
-/

namespace Sample

/-- Two hosts that have to commit both. -/
def twoHosts : Transaction ℕ := { transaction with dbHostsConf := [10, 20] }

/-- The insert at one host succeeds, the one at the other fails; both agents have stopped
    when the rollback is sent. -/
def failedRun : List Tx.Action :=
  [.coordinator [0, 1]] ++ votes 0 ++ votes 1 ++ [.coordinator [], .coordinator []] ++
  commits 0 ++
  onHost 1 [.handleRequest, .receiveCommand, .mongo (.insertCompletes 0 false), .stopAgent,
    .timeout .commit] ++
  [.coordinator []] ++ onHost 0 [.handleRequest] ++ onHost 1 [.handleRequest] ++
  [.coordinator []] ++ onHost 0 [.handleRequest] ++ onHost 1 [.handleRequest]

/-- One host that has to commit. -/
def oneHost : Transaction ℕ := { transaction with dbHostsConf := [10], minDbsCount := 1 }

/-- The commit times out while the insert is running, and the rollback arrives in time. -/
def rolledBackRun : List Tx.Action :=
  [.coordinator [0]] ++ votes 0 ++ [.coordinator [], .coordinator []] ++
  onHost 0 [.handleRequest, .receiveCommand, .mongo (.storeNext 0), .timeout .commit] ++
  [.coordinator []] ++
  onHost 0 [.handleRequest, .receiveCommand, .mongo (.insertCompletes 0 true),
    .mongo (.applyDelete 0), .mongo (.deleteCompletes 0 true), .stopAgent] ++
  [.coordinator []] ++ onHost 0 [.handleRequest]

end Sample

/-- On a reliable network alone the commit is not all-or-nothing. -/
theorem error_leaves_documents :
    ¬∀ (cfg : Transaction ℕ) (votes : ℕ → List Document), 1 ≤ cfg.minDbsCount →
      Fresh cfg votes → AllOrNothing cfg votes fun s a => reliable s a = true := by
  intro h
  have hend : (run (transition Sample.twoHosts) (start Sample.twoHosts fun _ => [])
      Sample.failedRun).map (fun s => (s.1.coord, decide (Settled Sample.twoHosts s),
        ofTx "t" (s.2 10))) =
      some (.done (some [0, 1]) .error, true, [{ txId := some (.string "t") }]) := by decide
  obtain ⟨s, hs, hresult⟩ := Option.map_eq_some_iff.mp hend
  simp only [Prod.mk.injEq, decide_eq_true_eq] at hresult
  obtain ⟨hcoord, hsettled, hheld⟩ := hresult
  have hnil := h Sample.twoHosts (fun _ => []) (by decide) (fun _ => rfl) Sample.failedRun s
    (by decide) hs ⟨_, hcoord⟩ hsettled 10 (by decide)
  have heq : ofTx "t" (s.2 10) = [] := hnil
  simp [heq] at hheld

/-- The rollback of the second sample run removes the stored document. -/
theorem error_leaves_nothing_sample :
    ∃ s, run (transition Sample.oneHost) (start Sample.oneHost fun _ => [])
        Sample.rolledBackRun = some s ∧
      Answered s .error ∧ Settled Sample.oneHost s ∧ ofTx "t" (s.2 10) = [] := by
  have hend : (run (transition Sample.oneHost) (start Sample.oneHost fun _ => [])
      Sample.rolledBackRun).map (fun s => (s.1.coord, decide (Settled Sample.oneHost s))) =
      some (.done (some [0]) .error, true) := by decide
  obtain ⟨s, hs, hresult⟩ := Option.map_eq_some_iff.mp hend
  simp only [Prod.mk.injEq, decide_eq_true_eq] at hresult
  obtain ⟨hcoord, hsettled⟩ := hresult
  exact ⟨s, hs, ⟨_, hcoord⟩, hsettled,
    error_leaves_nothing Sample.oneHost (fun _ => []) (fun _ => rfl) Sample.rolledBackRun s
      (by decide) hs ⟨_, hcoord⟩ hsettled 10 (by decide)⟩

end RsoVoting.TwoPhase
