import RsoVoting.TwoPhase.Interference
import RsoVoting.TwoPhase.ConfirmedRollback

namespace RsoVoting.TwoPhase

open RsoVoting.Runs RsoVoting.Interleave

/-!
# What no post touches

The collections hold more than the documents of the running transactions: what earlier ones
stored, and what other programs put there, with or without a `txId`.  A rollback deletes by
the `txId` of its agent, which is null in an agent that has not been told one, and a filter
by null takes every document without an id.  No run gets there:

* `Connection.Named` — every started delete goes by the id of its transaction: only an agent
  that voted ok is told to roll back, and such an agent keeps the id;
* `Connection.Rule.filter_eq` — so a step changes no document of another id, or of none;
* `others_untouched` — and a concurrent run leaves, at every host and in their order, all
  documents that carry the id of none of its transactions.
-/

/-! ### The deletes of a connection -/

namespace Connection

variable {txId : String} {documents : List Document} {c c' : Connection}
  {votes votes' : List Document} {a : ConnAction}

/-- Every started delete goes by the id of the transaction. -/
def Named (txId : String) (c : Connection) : Prop := ∀ op ∈ c.agent.deletes, op.txId = some txId

/-- **Step lemma.**  A delete is started by an agent that voted ok, with the id it keeps. -/
theorem Named.step (hn : Named txId c) (ht : Tokens c) (hv : Voted txId c)
    (hasked : c.rollbackAsk ≠ .unsent → c.voteAsk = .answered .voteOk)
    (h : Rule txId documents c votes a c' votes') : Named txId c' := by
  cases h with
  | @receiveRollback rest hframe ha =>
    -- the command is on the wire, so the coordinator has asked for it
    have hne : c.rollbackAsk ≠ .unsent := by
      intro hu
      have h0 := ht.rollbacks_unsent hu
      simp [rollbacks, hframe] at h0
    have htx := (hv (.inr (hasked hne))).1
    intro op hop
    rcases List.mem_append.mp hop with hop | hop
    · exact hn op hop
    · obtain rfl := List.mem_singleton.mp hop
      exact htx
  | @applyDelete k op hop | @deleteCompletes k op ok hop =>
    have hop' : op.txId = some txId := hn op (List.mem_of_getElem? hop)
    exact forall_mem_set hn (by simpa using hop') k
  | receiveCommitThrows => exact hn
  | _ => simpa [Named] using hn

/-- Nothing is stored or deleted but under the id of the transaction. -/
theorem Rule.filter_eq (h : Rule txId documents c votes a c' votes')
    (hp : Payload txId documents c) (hn : Named txId c)
    (htag : ∀ d ∈ documents, d.txId = some (.string txId)) {p : Document → Bool}
    (hother : ∀ d, p d = true → d.txId ≠ some (.string txId)) :
    votes'.filter p = votes.filter p := by
  cases h with
  | @storeNext k op doc hop hdoc =>
    obtain ⟨hd, -, -⟩ := hp.inserts op (List.mem_of_getElem? hop)
    have hnot : ¬p doc = true := fun hpd =>
      hother doc hpd (htag doc (hd ▸ List.mem_of_getElem? hdoc))
    simp [List.filter_append, hnot]
  | @applyDelete k op hop =>
    rw [List.filter_filter, hn op (List.mem_of_getElem? hop)]
    refine List.filter_congr fun d _ => ?_
    show (p d && !decide (d.txId = some (.string txId))) = p d
    cases hpd : p d with
    | false => rfl
    | true  => simp [hother d hpd]
  | _ => rfl

end Connection

/-! ### Over concurrent runs -/

variable {H ι : Type}

/-- What holds of a transaction in every run. -/
structure Naming (cfg : Transaction H) (tx : Tx) : Prop where
  invariant : Invariant cfg tx
  voted : ∀ i, Connection.Voted cfg.txId (tx.conn i)
  named : ∀ i, Connection.Named cfg.txId (tx.conn i)

theorem Naming.init (cfg : Transaction H) : Naming cfg (Tx.init cfg) where
  invariant := .init cfg
  voted i := by simp [Tx.init, Connection.Voted]
  named i := by simp [Tx.init, Connection.Named]

variable [DecidableEq H]

/-- **Step lemma.**  A step keeps the deletes named, and leaves the other documents of every
    host. -/
theorem Naming.step {cfg : Transaction H} {tx tx' : Tx} {votes votes' : H → List Document}
    {a : Tx.Action} (hI : Naming cfg tx) (h : Tx.step cfg tx votes a = some (tx', votes')) :
    Naming cfg tx' ∧ ∀ (p : Document → Bool),
      (∀ d, p d = true → d.txId ≠ some (.string cfg.txId)) →
      ∀ host, (votes' host).filter p = (votes host).filter p := by
  have hinv : Invariant cfg tx' := hI.invariant.step h
  cases a with
  | coordinator shuffled =>
    obtain ⟨hadv, rfl⟩ := Tx.advance_of_step h
    have hc := hI.invariant.coordinated
    refine ⟨⟨hinv, hadv.forall_conn hc hI.voted (fun _ p hv _ => hv.sendAsk p) fun _ hv => hv,
      hadv.forall_conn hc hI.named (fun c p hn _ => ?_) fun _ hn => hn⟩, fun _ _ _ => rfl⟩
    simpa [Connection.Named] using hn
  | connection k a =>
    obtain ⟨host, c, vs, -, -, hrule, rfl, rfl⟩ := Tx.connection_of_step h
    have hsound := hI.invariant.sound k
    refine ⟨⟨hinv, ?_, ?_⟩, fun p hother host' => ?_⟩
    · exact (Function.forall_update_iff tx.conn fun _ c => Connection.Voted cfg.txId c).mpr
        ⟨(hI.voted k).step hsound.payload hrule, fun j _ => hI.voted j⟩
    · exact (Function.forall_update_iff tx.conn fun _ c => Connection.Named cfg.txId c).mpr
        ⟨(hI.named k).step hsound.tokens (hI.voted k) hI.invariant.voted_of_asked hrule,
          fun j _ => hI.named j⟩
    · by_cases hh : host' = host
      · subst hh
        rw [Function.update_self]
        exact hrule.filter_eq hsound.payload (hI.named k) cfg.tagged hother
      · rw [Function.update_of_ne hh]

variable [DecidableEq ι]

/-- **Run lemma.** -/
theorem Naming.of_run {cfg : ι → Transaction H} {as : List (ι × Tx.Action)}
    {s s' : (ι → Tx) × (H → List Document)} (hI : ∀ t, Naming (cfg t) (s.1 t))
    (hrun : run (concurrently cfg) s as = some s') :
    (∀ t, Naming (cfg t) (s'.1 t)) ∧ ∀ p : Document → Bool,
      (∀ d, p d = true → ∀ t, d.txId ≠ some (.string (cfg t).txId)) →
      ∀ host, (s'.2 host).filter p = (s.2 host).filter p := by
  refine run_invariant (I := fun u : (ι → Tx) × (H → List Document) =>
    (∀ t, Naming (cfg t) (u.1 t)) ∧ ∀ p : Document → Bool,
      (∀ d, p d = true → ∀ t, d.txId ≠ some (.string (cfg t).txId)) →
      ∀ host, (u.2 host).filter p = (s.2 host).filter p) ?_ ⟨hI, fun _ _ _ => rfl⟩ hrun
  rintro ⟨txs, vs⟩ ⟨u, a⟩ ⟨txs', vs'⟩ ⟨hI, hvotes⟩ h
  obtain ⟨tx, hstep, rfl⟩ := interleave_eq_some.mp h
  obtain ⟨hu, hkept⟩ := (hI u).step hstep
  refine ⟨?_, fun p hother host => ?_⟩
  · exact (Function.forall_update_iff txs fun t tx => Naming (cfg t) tx).mpr
      ⟨hu, fun t _ => hI t⟩
  · exact (hkept p (fun d hd => hother d hd u) host).trans (hvotes p hother host)

/-- **Frame.**  Over every interleaved run of any transactions, from any collections, every
    host keeps all documents that carry the id of none of them, in their order: those of
    other transactions, and those whose id is null or absent. -/
theorem others_untouched {cfg : ι → Transaction H} {votes : H → List Document}
    {as : List (ι × Tx.Action)} {s : (ι → Tx) × (H → List Document)}
    (hrun : run (concurrently cfg) (startAll cfg votes) as = some s) {p : Document → Bool}
    (hother : ∀ d, p d = true → ∀ t, d.txId ≠ some (.string (cfg t).txId)) (host : H) :
    (s.2 host).filter p = (votes host).filter p :=
  (Naming.of_run (fun t => .init (cfg t)) hrun).2 p hother host

/-- The two posts of the sample run, one of them rolled back, leave a document without an id. -/
theorem others_untouched_sample :
    ∃ s, run (concurrently Sample.posts) (startAll Sample.posts fun _ => [{}])
        Sample.concurrentRun = some s ∧
      (s.2 10).filter (fun d => d.txId = none) = [{}] := by
  obtain ⟨s, hs⟩ := Option.isSome_iff_exists.mp
    (show (run (concurrently Sample.posts) (startAll Sample.posts fun _ => [{}])
      Sample.concurrentRun).isSome = true by decide)
  refine ⟨s, hs, others_untouched hs (fun d hd t => ?_) 10⟩
  simp [of_decide_eq_true hd]

end RsoVoting.TwoPhase
