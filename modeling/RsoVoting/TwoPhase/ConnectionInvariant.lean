import RsoVoting.TwoPhase.ConnectionRules

namespace RsoVoting.TwoPhase.Connection

/-!
# The invariant of a connection

What holds of every connection in every state of every run, whatever is lost, late or
failing, as facts that every rule keeps:

* `Tokens` — at most one commit and at most one rollback are under way on a connection, in
  the mailbox, on the wire or as a started operation, and none before the coordinator asked;
* `Payload` — the agent only ever holds the documents and the id of this transaction;
* `Acked` — before a rollback is asked for, an `ACK` is evidence of a completed insert;
* `Sound` — the conjunction of these three, which say nothing about the collection;
* `Contents` — what the host's collection holds of the transaction is part of what the
  agent's insert has stored, and all of it before a rollback is asked for.  This one needs
  that nobody else writes documents of the transaction there.
-/

variable {txId : String} {documents : List Document} {c c' : Connection}
  {votes votes' : List Document} {a : ConnAction}

/-! ### Promises only move forward -/

/-- No step of a connection sends an ask. -/
theorem Rule.ask_unsent_iff (h : Rule txId documents c votes a c' votes') (p : Phase) :
    c'.ask p = .unsent ↔ c.ask p = .unsent := by
  cases h with
  | requestRollback =>
    rw [ask_complete]
    split <;> cases p <;> simp_all [ask]
  | commandFailed =>
    have hask : ({ c.reply .voteError with
        proxy := { (c.reply .voteError).proxy with behaviour := .stopped } } : Connection).ask p
          = (c.reply .voteError).ask p := by cases p <;> rfl
    rw [hask, ask_reply]
    split <;> simp_all
  | @receiveReply r rest =>
    have hask : ({ c with toProxy := rest } : Connection).ask p = c.ask p := by cases p <;> rfl
    rw [ask_reply, hask]
    split <;> simp_all
  | timeout hask =>
    rw [ask_setAsk]
    split <;> simp_all
  | _ => cases p <;> rfl

/-- An answered promise keeps its answer. -/
theorem Rule.ask_answered (h : Rule txId documents c votes a c' votes') {p : Phase}
    {m : Message} (hm : c.ask p = .answered m) : c'.ask p = .answered m := by
  cases h with
  | requestRollback =>
    rw [ask_complete, if_neg]
    · cases p <;> exact hm
    · rintro ⟨rfl, hpend⟩
      simp_all [ask]
  | commandFailed =>
    have hask : ({ c.reply .voteError with
        proxy := { (c.reply .voteError).proxy with behaviour := .stopped } } : Connection).ask p
          = (c.reply .voteError).ask p := by cases p <;> rfl
    rw [hask, ask_reply, hm]
    simp
  | @receiveReply r rest =>
    have hask : ({ c with toProxy := rest } : Connection).ask p = c.ask p := by cases p <;> rfl
    rw [ask_reply, hask, hm]
    simp
  | timeout hask =>
    rw [ask_setAsk]
    split <;> simp_all
  | _ => cases p <;> exact hm

/-! ### Tokens -/

/-- Commits under way: in the mailbox, on the wire, or started as an insert. -/
def commits (c : Connection) : ℕ :=
  c.proxy.inbox.count .commit + c.toAgent.count .commit + c.agent.inserts.length

/-- Rollbacks under way: in the mailbox, on the wire, or started as a delete. -/
def rollbacks (c : Connection) : ℕ :=
  c.proxy.inbox.count .rollback + c.toAgent.count .rollback + c.agent.deletes.length

/-- No step of a connection makes a second commit out of one. -/
theorem Rule.commits_le (h : Rule txId documents c votes a c' votes') :
    c'.commits ≤ c.commits := by
  cases h <;> simp_all [commits, DbAgentActor.restart, List.count_cons] <;> omega

/-- Nor a second rollback. -/
theorem Rule.rollbacks_le (h : Rule txId documents c votes a c' votes') :
    c'.rollbacks ≤ c.rollbacks := by
  cases h <;> simp_all [rollbacks, DbAgentActor.restart, List.count_cons] <;> omega

/-- At most one commit and one rollback, and none unasked for. -/
structure Tokens (c : Connection) : Prop where
  commits_le : c.commits ≤ 1
  rollbacks_le : c.rollbacks ≤ 1
  commits_unsent : c.commitAsk = .unsent → c.commits = 0
  rollbacks_unsent : c.rollbackAsk = .unsent → c.rollbacks = 0

theorem Tokens.step (hc : Tokens c) (h : Rule txId documents c votes a c' votes') :
    Tokens c' where
  commits_le := Nat.le_trans h.commits_le hc.commits_le
  rollbacks_le := Nat.le_trans h.rollbacks_le hc.rollbacks_le
  commits_unsent hu := by
    have h0 := hc.commits_unsent ((h.ask_unsent_iff .commit).mp hu)
    have hle := h.commits_le
    omega
  rollbacks_unsent hu := by
    have h0 := hc.rollbacks_unsent ((h.ask_unsent_iff .rollback).mp hu)
    have hle := h.rollbacks_le
    omega

/-- Before a rollback is asked for, the agent has started no delete. -/
theorem Tokens.deletes_eq_nil (hc : Tokens c) (hu : c.rollbackAsk = .unsent) :
    c.agent.deletes = [] := by
  have h0 := hc.rollbacks_unsent hu
  unfold rollbacks at h0
  exact List.eq_nil_of_length_eq_zero (by omega)

/-- Before a commit is asked for, the agent has started no insert. -/
theorem Tokens.inserts_eq_nil (hc : Tokens c) (hu : c.commitAsk = .unsent) :
    c.agent.inserts = [] := by
  have h0 := hc.commits_unsent hu
  unfold commits at h0
  exact List.eq_nil_of_length_eq_zero (by omega)

/-- A started insert is the only one. -/
theorem Tokens.inserts_eq_singleton (hc : Tokens c) {k : ℕ} {op : InsertMany}
    (hop : c.agent.inserts[k]? = some op) : k = 0 ∧ c.agent.inserts = [op] := by
  have hle := hc.commits_le
  obtain ⟨hk, hget⟩ := List.getElem?_eq_some_iff.mp hop
  unfold commits at hle
  have hlen : c.agent.inserts.length = 1 := by omega
  obtain ⟨x, hx⟩ := List.length_eq_one_iff.mp hlen
  have hk0 : k = 0 := by omega
  subst hk0
  simp_all

/-! ### Payload -/

/-- Everything the agent was told belongs to this transaction. -/
structure Payload (txId : String) (documents : List Document) (c : Connection) : Prop where
  frames : ∀ t ds, Command.vote t ds ∈ c.toAgent → t = txId ∧ ds = documents
  saved : ∀ ds ∈ c.agent.documentsToSave, ds = documents
  agentTx : ∀ t ∈ c.agent.txId, t = txId
  inserts : ∀ op ∈ c.agent.inserts, op.docs = documents ∧ op.stored ≤ documents.length ∧
    (op.completed = some true → op.stored = documents.length)
  deletes : ∀ op ∈ c.agent.deletes, ∀ t ∈ op.txId, t = txId

theorem Payload.step (hc : Payload txId documents c)
    (h : Rule txId documents c votes a c' votes') : Payload txId documents c' := by
  obtain ⟨hframes, hsaved, htx, hins, hdel⟩ := hc
  cases h with
  | connected =>
    -- the frame that is written is the transaction's own vote
    refine ⟨?_, hsaved, htx, hins, hdel⟩
    intro t ds hmem
    rcases List.mem_append.mp hmem with hmem | hmem
    · exact hframes t ds hmem
    · simpa using hmem
  | @receiveVote t ds rest hframe =>
    obtain ⟨rfl, rfl⟩ := hframes t ds (by simp [hframe])
    exact ⟨fun t ds hmem => hframes t ds (by simp [hframe, hmem]), by simp, by simp, hins, hdel⟩
  | @receiveCommit ds rest hframe ha hs =>
    -- the insert starts with nothing stored
    obtain rfl := hsaved ds hs
    refine ⟨fun t ds hmem => hframes t ds (by simp [hframe, hmem]), hsaved, htx, ?_, hdel⟩
    intro op hop
    rcases List.mem_append.mp hop with hop | hop
    · exact hins op hop
    · obtain rfl := List.mem_singleton.mp hop
      simp
  | receiveCommitThrows hframe =>
    exact ⟨fun t ds hmem => hframes t ds (by simp [hframe, hmem]), by simp [DbAgentActor.restart],
      by simp [DbAgentActor.restart], hins, hdel⟩
  | receiveRollback hframe =>
    refine ⟨fun t ds hmem => hframes t ds (by simp [hframe, hmem]), hsaved, htx, hins, ?_⟩
    intro op hop
    rcases List.mem_append.mp hop with hop | hop
    · exact hdel op hop
    · obtain rfl := List.mem_singleton.mp hop
      exact htx
  | @storeNext k op doc hop hdoc hrun =>
    refine ⟨hframes, hsaved, htx, forall_mem_set hins ?_ k, hdel⟩
    -- there was a next document, so the count stays within the list
    obtain ⟨hd, _, hcomp⟩ := hins op (List.mem_of_getElem? hop)
    have hlt : op.stored < op.docs.length := (List.getElem?_eq_some_iff.mp hdoc).1
    rw [hd] at hlt
    exact ⟨hd, hlt, fun hdone => by simp [hrun] at hdone⟩
  | @insertCompletes k op ok hop hrun hok =>
    refine ⟨hframes, hsaved, htx, forall_mem_set hins ?_ k, hdel⟩
    obtain ⟨hd, hle, _⟩ := hins op (List.mem_of_getElem? hop)
    refine ⟨hd, hle, fun hdone => ?_⟩
    -- the driver reports success only when all documents are stored
    rw [← hd]
    exact hok (by simpa using hdone)
  | @applyDelete k op hop | @deleteCompletes k op ok hop =>
    refine ⟨hframes, hsaved, htx, hins, forall_mem_set hdel ?_ k⟩
    exact hdel op (List.mem_of_getElem? hop)
  | requestCommit =>
    exact ⟨fun t ds hmem => hframes t ds (by simpa using hmem), hsaved, htx, hins, hdel⟩
  | requestRollback =>
    exact ⟨fun t ds hmem => hframes t ds (by simpa using hmem), by simpa using hsaved,
      by simpa using htx, by simpa using hins, by simpa using hdel⟩
  | loseCommand hframe =>
    exact ⟨fun t ds hmem => hframes t ds (by simp [hframe, hmem]), hsaved, htx, hins, hdel⟩
  | _ =>
    exact ⟨by simpa using hframes, by simpa using hsaved, by simpa using htx,
      by simpa using hins, by simpa using hdel⟩

/-! ### An acknowledgement is evidence of a completed insert -/

/-- Before a rollback is asked for, an `ACK` on the wire or in the commit's promise means
    that the agent's insert has completed with success. -/
def Acked (c : Connection) : Prop :=
  c.rollbackAsk = .unsent → (Reply.ack ∈ c.toProxy ∨ c.commitAsk = .answered .ack) →
    ∃ op ∈ c.agent.inserts, op.completed = some true

theorem Acked.step (hc : Acked c) (ht : Tokens c)
    (h : Rule txId documents c votes a c' votes') : Acked c' := by
  intro hu hack
  have hu₀ : c.rollbackAsk = .unsent := (h.ask_unsent_iff .rollback).mp hu
  have hc' := hc hu₀
  have keep : c'.agent.inserts = c.agent.inserts →
      (Reply.ack ∈ c.toProxy ∨ c.commitAsk = .answered .ack) →
        ∃ op ∈ c'.agent.inserts, op.completed = some true :=
    fun e hack => e ▸ hc' hack
  cases h with
  | @receiveReply r rest hframe hb =>
    -- the only way into the commit's promise: the frame itself was the evidence
    refine keep (by simp) ?_
    rcases hack with hack | hack
    · exact .inl (by simpa [hframe] using .inr (by simpa using hack))
    · rcases answered_of_reply { c with toProxy := rest } (Reply.forward r) .commit hack with
        hack | ⟨hr, -⟩
      · exact .inr hack
      · cases r with
        | ack    => exact .inl (by simp [hframe])
        | voteOk => simp [Reply.forward] at hr
  | commandFailed =>
    -- a failed connection answers with `VoteError`, which is no acknowledgement
    refine keep (by simp) (hack.imp (by simp) fun hack => ?_)
    exact (answered_of_reply c .voteError .commit hack).resolve_right (by simp)
  | requestRollback hinbox =>
    -- a rollback in the mailbox has been asked for
    have h0 := ht.rollbacks_unsent hu₀
    simp [rollbacks, hinbox] at h0
  | @timeout p hask =>
    refine keep (by simp) ?_
    rcases hack with hack | hack
    · exact .inl (by simpa using hack)
    · cases p <;> first | exact .inr hack | simp [setAsk] at hack
  | @receiveVote t ds rest hframe =>
    refine hc' (hack.imp_left fun hmem => ?_)
    simpa using hmem
  | @receiveCommit ds rest hframe =>
    obtain ⟨op, hop, hdone⟩ := hc' hack
    exact ⟨op, List.mem_append_left _ hop, hdone⟩
  | @storeNext k op doc hop hdoc hrun =>
    obtain ⟨op', hop', hdone⟩ := hc' hack
    refine ⟨op', ?_, hdone⟩
    -- the insert that stores is the only one, and has not completed
    obtain ⟨rfl, hsingle⟩ := ht.inserts_eq_singleton hop
    obtain rfl : op' = op := by simpa [hsingle] using hop'
    simp [hrun] at hdone
  | @insertCompletes k op ok hop hrun hok =>
    obtain ⟨rfl, hsingle⟩ := ht.inserts_eq_singleton hop
    cases ok with
    | true  => exact ⟨{ op with completed := some true }, by simp [hsingle], rfl⟩
    | false =>
      obtain ⟨op', hop', hdone⟩ := hc' (by simpa using hack)
      obtain rfl : op' = op := by simpa [hsingle] using hop'
      simp [hrun] at hdone
  | @deleteCompletes k op ok hop =>
    -- an `ACK` of a delete would need a rollback that was asked for
    rw [ht.deletes_eq_nil hu₀] at hop
    simp at hop
  | loseReply hframe => exact hc' (hack.imp_left fun hmem => by simp [hframe, hmem])
  | _ => exact hc' hack

/-! ### Contents of the host's collection -/

/-- What the agent's inserts have stored. -/
def storedDocs (c : Connection) : List Document :=
  c.agent.inserts.flatMap fun op => op.docs.take op.stored

/-- The host's documents of the transaction are among those the agent has stored, in the
    same order, and are exactly those before a rollback is asked for. -/
structure Contents (txId : String) (c : Connection) (votes : List Document) : Prop where
  sublist : (ofTx txId votes).Sublist c.storedDocs
  exact : c.rollbackAsk = .unsent → ofTx txId votes = c.storedDocs

theorem Contents.step (hc : Contents txId c votes) (ht : Tokens c)
    (hp : Payload txId documents c) (htag : ∀ d ∈ documents, d.txId = some (.string txId))
    (h : Rule txId documents c votes a c' votes') : Contents txId c' votes' := by
  obtain ⟨hsub, hexact⟩ := hc
  have hun := h.ask_unsent_iff .rollback
  -- most steps change neither side
  have hsame : c'.storedDocs = c.storedDocs → votes' = votes → Contents txId c' votes' := by
    rintro hs rfl
    exact ⟨by rwa [hs], fun hu => by rw [hs]; exact hexact (hun.mp hu)⟩
  cases h with
  | @receiveCommit ds rest => exact hsame (by simp [storedDocs]) rfl
  | @storeNext k op doc hop hdoc hrun =>
    obtain ⟨rfl, hsingle⟩ := ht.inserts_eq_singleton hop
    obtain ⟨hd, _, _⟩ := hp.inserts op (by simp [hsingle])
    have hdtag : doc.txId = some (.string txId) :=
      htag doc (hd ▸ List.mem_of_getElem? hdoc)
    have hold : c.storedDocs = op.docs.take op.stored := by simp [storedDocs, hsingle]
    have htake : op.docs.take (op.stored + 1) = op.docs.take op.stored ++ [doc] := by
      rw [List.take_add_one, hdoc, Option.toList_some]
    -- both sides grow by the same document at their end
    have hnew : storedDocs
        { c with agent := { c.agent with
            inserts := c.agent.inserts.set 0 { op with stored := op.stored + 1 } } }
        = c.storedDocs ++ [doc] := by
      rw [hold, ← htake]
      simp [storedDocs, hsingle]
    refine ⟨?_, fun hu => ?_⟩
    · rw [hnew, ofTx_concat_self hdtag]
      exact hsub.append (List.Sublist.refl _)
    · rw [hnew, ofTx_concat_self hdtag, hexact (hun.mp hu)]
  | @insertCompletes k op ok hop =>
    obtain ⟨rfl, hsingle⟩ := ht.inserts_eq_singleton hop
    exact hsame (by simp [storedDocs, hsingle]) rfl
  | @applyDelete k op hop =>
    -- a delete takes documents away, and is there only after a rollback was asked for
    have hfilter : (ofTx txId (votes.filter fun d => !matchesTxId op.txId d)).Sublist
        (ofTx txId votes) := List.Sublist.filter _ List.filter_sublist
    refine ⟨hfilter.trans hsub, fun hu => ?_⟩
    rw [ht.deletes_eq_nil (hun.mp hu)] at hop
    simp at hop
  | _ => exact hsame (by simp [storedDocs, DbAgentActor.restart]) rfl

/-- Contents depend on the agent, and on whether a rollback has been asked for. -/
theorem Contents.of_agent_eq (hc : Contents txId c votes) (ha : c'.agent = c.agent)
    (hu : c'.rollbackAsk = .unsent → c.rollbackAsk = .unsent) : Contents txId c' votes := by
  have hs : c'.storedDocs = c.storedDocs := by rw [storedDocs, storedDocs, ha]
  exact ⟨hs ▸ hc.sublist, fun h => hs ▸ hc.exact (hu h)⟩

/-- A connection that has not been opened has stored nothing. -/
theorem Contents.initial (h : ofTx txId votes = []) : Contents txId {} votes :=
  ⟨by simp [h], fun _ => by simp [storedDocs, h]⟩

/-! ### The invariant -/

/-- What holds of every connection in every reachable state, whoever else writes to the
    collection of its host. -/
structure Sound (txId : String) (documents : List Document) (c : Connection) : Prop where
  tokens : Tokens c
  payload : Payload txId documents c
  acked : Acked c

/-- **Step lemma.**  Every step of a connection keeps its invariant. -/
theorem Sound.step (hc : Sound txId documents c) (h : Rule txId documents c votes a c' votes') :
    Sound txId documents c' where
  tokens := hc.tokens.step h
  payload := hc.payload.step h
  acked := hc.acked.step hc.tokens h

/-- A connection that has not been opened is sound. -/
theorem Sound.initial : Sound txId documents {} where
  tokens := ⟨by simp [commits], by simp [rollbacks], by simp [commits], by simp [rollbacks]⟩
  payload := ⟨by simp, by simp, by simp, by simp, by simp⟩
  acked := fun _ hack => by simp at hack

end RsoVoting.TwoPhase.Connection
