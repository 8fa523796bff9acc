import RsoVoting.TwoPhase.Storage

namespace RsoVoting.TwoPhase

open RsoVoting.Runs RsoVoting.Interleave

/-!
# Concurrent transactions

Any number of transactions run at the same time, each with its own coordinator and its own
connections and agents; what they share is the hosts' `votes` collections.  An insert adds
documents that carry its transaction's `txId`, and a delete filters by the `txId` of its
agent, so with pairwise distinct ids a transaction neither adds nor removes documents of
another one:

* `Connection.Rule.ofTx_other` — a step leaves the documents of other transactions alone;
* `Connection.step_congr` — and looks at no document of any transaction;
* `unwinding` — these are the step conditions of the projection rule;
* `transactions_do_not_interfere` — so a transaction does in an interleaved run what it
  does when only its own steps are taken.
-/

/-! ### A step and the documents of other transactions -/

namespace Connection

variable {txId t : String} {documents : List Document} {c c' : Connection}
  {votes votes' : List Document} {a : ConnAction}

/-- Nothing is stored or deleted under another transaction's id. -/
theorem Rule.ofTx_other (h : Rule txId documents c votes a c' votes')
    (hp : Payload txId documents c) (htag : ∀ d ∈ documents, d.txId = some (.string txId))
    (hne : txId ≠ t) : ofTx t votes' = ofTx t votes := by
  cases h with
  | @storeNext k op doc hop hdoc =>
    obtain ⟨hd, -, -⟩ := hp.inserts op (List.mem_of_getElem? hop)
    exact ofTx_concat_of_ne (htag doc (hd ▸ List.mem_of_getElem? hdoc)) hne
  | @applyDelete k op hop =>
    -- an agent deletes by its own transaction's id, or by none before its vote
    have hop' := hp.deletes op (List.mem_of_getElem? hop)
    exact ofTx_delete_of_ne (fun e => hne (hop' t e).symm) votes
  | _ => rfl

/-! ### A step looks at no documents -/

end Connection

/-- Deleting by a filter deletes the same among the documents of `t`. -/
theorem ofTx_filter (t : String) (p : Document → Bool) (votes : List Document) :
    ofTx t (votes.filter p) = (ofTx t votes).filter p := by
  simp [ofTx, List.filter_filter, Bool.and_comm]

theorem DbAgentActor.mongo_congr {a a' : DbAgentActor} {m : MongoAction} {t : String}
    {votes votes' votes₁ : List Document} {replies : List Reply}
    (h : a.mongo votes m = some (a', votes', replies)) (hobs : ofTx t votes = ofTx t votes₁) :
    ∃ votes₁', a.mongo votes₁ m = some (a', votes₁', replies) ∧
      ofTx t votes' = ofTx t votes₁' := by
  -- whether an operation can move depends on the agent alone
  cases m with
  | storeNext k =>
    simp only [mongo, Option.bind_eq_bind, Option.bind_eq_some_iff, Option.guard_eq_some'] at h ⊢
    obtain ⟨op, hop, doc, hdoc, _, hrun, h⟩ := h
    obtain ⟨rfl, rfl, rfl⟩ : _ = a' ∧ _ = votes' ∧ replies = [] := by simpa using h
    exact ⟨votes₁ ++ [doc], ⟨op, hop, doc, hdoc, (), hrun, rfl⟩, by
      rw [ofTx_append, ofTx_append, hobs]⟩
  | insertCompletes k ok =>
    simp only [mongo, Option.bind_eq_bind, Option.bind_eq_some_iff, Option.guard_eq_some'] at h ⊢
    obtain ⟨op, hop, _, hrun, h⟩ := h
    obtain ⟨rfl, rfl, rfl⟩ : _ = a' ∧ votes = votes' ∧ _ = replies := by simpa using h
    exact ⟨votes₁, ⟨op, hop, (), hrun, rfl⟩, hobs⟩
  | applyDelete k =>
    simp only [mongo, Option.bind_eq_bind, Option.bind_eq_some_iff, Option.guard_eq_some'] at h ⊢
    obtain ⟨op, hop, _, hrun, h⟩ := h
    obtain ⟨rfl, rfl, rfl⟩ : _ = a' ∧ _ = votes' ∧ replies = [] := by simpa using h
    exact ⟨_, ⟨op, hop, (), hrun, rfl⟩, by rw [ofTx_filter, ofTx_filter, hobs]⟩
  | deleteCompletes k ok =>
    simp only [mongo, Option.bind_eq_bind, Option.bind_eq_some_iff, Option.guard_eq_some'] at h ⊢
    obtain ⟨op, hop, _, hrun, h⟩ := h
    obtain ⟨rfl, rfl, rfl⟩ : _ = a' ∧ votes = votes' ∧ _ = replies := by simpa using h
    exact ⟨votes₁, ⟨op, hop, (), hrun, rfl⟩, hobs⟩

/-- What a connection does over one collection it does over any other, with the same effect
    on the documents of `t` if these were the same. -/
theorem Connection.step_congr {c c' : Connection} {a : ConnAction} {txId t : String}
    {documents votes votes' votes₁ : List Document}
    (h : c.step txId documents votes a = some (c', votes'))
    (hobs : ofTx t votes = ofTx t votes₁) :
    ∃ votes₁', c.step txId documents votes₁ a = some (c', votes₁') ∧
      ofTx t votes' = ofTx t votes₁' := by
  cases a
  case mongo m =>
    simp only [step, Option.bind_eq_bind, Option.bind_eq_some_iff] at h ⊢
    obtain ⟨⟨agent, vs, replies⟩, hm, h⟩ := h
    obtain ⟨rfl, rfl⟩ : _ = c' ∧ vs = votes' := by simpa using h
    obtain ⟨vs₁, hm₁, hobs'⟩ := DbAgentActor.mongo_congr hm hobs
    exact ⟨vs₁, ⟨_, hm₁, rfl⟩, hobs'⟩
  all_goals
    -- every other step passes the collection on as it is
    simp only [step, Option.bind_eq_bind, Option.bind_eq_some_iff, Option.guard_eq_some',
      Option.pure_def, Option.some.injEq, Prod.mk.injEq] at h ⊢
    grind

/-! ### The projection -/

variable {H ι : Type} [DecidableEq H]

/-- Transactions with distinct ids satisfy the step conditions of the projection rule: what
    transaction `t` observes is its own documents at every host. -/
theorem unwinding {cfg : ι → Transaction H} (hinj : Function.Injective fun t => (cfg t).txId) :
    Unwinding (fun t => Tx.step (cfg t)) (fun t votes host => ofTx (cfg t).txId (votes host))
      (fun t => Invariant (cfg t)) where
  keeps hinv h := hinv.step h
  respects {t u tx votes a tx' votes'} hinv hne h := by
    cases a with
    | coordinator shuffled =>
      simp only [Tx.step, Option.map_eq_some_iff, Prod.mk.injEq] at h
      obtain ⟨_, -, -, rfl⟩ := h
      rfl
    | connection i a =>
      obtain ⟨host, c, vs, -, -, hrule, rfl, rfl⟩ := Tx.connection_of_step h
      funext host'
      by_cases hh : host' = host
      · subst hh
        rw [Function.update_self]
        -- ids are distinct, so what `u` stores and deletes is not seen by `t`
        exact hrule.ofTx_other (hinv.sound i).payload (cfg u).tagged fun e => hne (hinj e)
      · rw [Function.update_of_ne hh]
  consistent {t tx votes votes₁ a tx' votes'} _ hobs h := by
    cases a with
    | coordinator shuffled =>
      simp only [Tx.step, Option.map_eq_some_iff, Prod.mk.injEq] at h ⊢
      obtain ⟨_, hproceed, rfl, rfl⟩ := h
      exact ⟨votes₁, ⟨_, hproceed, rfl, rfl⟩, hobs⟩
    | connection i a =>
      simp only [Tx.step, Option.bind_eq_bind, Option.bind_eq_some_iff,
        Option.guard_eq_some'] at h ⊢
      obtain ⟨host, hhost, _, hperm, ⟨c, vs⟩, hc, h⟩ := h
      obtain ⟨rfl, rfl⟩ : _ = tx' ∧ _ = votes' := by simpa using h
      obtain ⟨vs₁, hc₁, hobs'⟩ := Connection.step_congr hc (congrFun hobs host)
      refine ⟨_, ⟨host, hhost, (), hperm, (c, vs₁), hc₁, rfl⟩, ?_⟩
      funext host'
      by_cases hh : host' = host
      · subst hh
        simpa using hobs'
      · simpa [Function.update_of_ne hh] using congrFun hobs host'

variable [DecidableEq ι]

/-- All transactions, interleaved over the shared collections. -/
def concurrently (cfg : ι → Transaction H) :
    (ι → Tx) × (H → List Document) → ι × Tx.Action → Option ((ι → Tx) × (H → List Document)) :=
  interleave fun t => Tx.step (cfg t)

/-- The start of all transactions over given collections. -/
def startAll (cfg : ι → Transaction H) (votes : H → List Document) :
    (ι → Tx) × (H → List Document) :=
  (fun t => Tx.init (cfg t), votes)

/-- Every transaction keeps its invariant among the others. -/
theorem invariant_of_concurrent_run {cfg : ι → Transaction H} {votes : H → List Document}
    {as : List (ι × Tx.Action)} {s : (ι → Tx) × (H → List Document)}
    (hrun : run (concurrently cfg) (startAll cfg votes) as = some s) (u : ι) :
    Invariant (cfg u) (s.1 u) := by
  refine run_invariant (I := fun s => ∀ u, Invariant (cfg u) (s.1 u)) ?_ (fun u => .init (cfg u))
    hrun u
  rintro ⟨txs, vs⟩ ⟨u, a⟩ ⟨txs', vs'⟩ hinv h
  obtain ⟨tx, hstep, rfl⟩ := interleave_eq_some.mp h
  exact (Function.forall_update_iff txs fun v tx => Invariant (cfg v) tx).mpr
    ⟨(hinv u).step hstep, fun v _ => hinv v⟩

/-- **Concurrent transactions do not interfere.**  After every interleaved run of
    transactions with pairwise distinct ids, every transaction `t` is in the state, and
    every host holds the documents of `t`, that the run of `t`'s own steps leads to; and no
    step of another transaction has added or removed a document of `t` anywhere. -/
theorem transactions_do_not_interfere {cfg : ι → Transaction H}
    (hinj : Function.Injective fun t => (cfg t).txId) {votes : H → List Document}
    {as : List (ι × Tx.Action)} {s : (ι → Tx) × (H → List Document)}
    (hrun : run (concurrently cfg) (startAll cfg votes) as = some s) (t : ι) :
    (∃ s', run (transition (cfg t)) (start (cfg t) votes) (actionsOf t as) = some s' ∧
      s.1 t = s'.1 ∧
      ∀ host, ofTx (cfg t).txId (s.2 host) = ofTx (cfg t).txId (s'.2 host)) ∧
    ∀ before after u a s₁ s₂, as = before ++ (u, a) :: after → u ≠ t →
      run (concurrently cfg) (startAll cfg votes) before = some s₁ →
      concurrently cfg s₁ (u, a) = some s₂ →
      ∀ host, ofTx (cfg t).txId (s₂.2 host) = ofTx (cfg t).txId (s₁.2 host) := by
  have hU := unwinding hinj
  constructor
  · obtain ⟨votes₁, hrun₁, hobs⟩ :=
      run_project hU t (fun u => Invariant.init (cfg u)) rfl hrun
    exact ⟨_, hrun₁, rfl, fun host => congrFun hobs host⟩
  · rintro before after u a ⟨txs₁, vs₁⟩ ⟨txs₂, vs₂⟩ - hne hbefore hstep host
    obtain ⟨tx, hu, rfl⟩ := interleave_eq_some.mp hstep
    exact congrFun (hU.respects (invariant_of_concurrent_run hbefore u) hne hu) host

/-! ### A sample run

Two posts at the same time over one host: the first one commits while the second one is
rolled back.
-/

namespace Sample

/-- Two posts of one vote each. -/
def posts (first : Bool) : Transaction ℕ :=
  MainServlet.run2pc [10] 1 (if first then "t" else "u") (fun _ => "row") [{}]

/-- The first post commits between the vote and the rollback of the second one. -/
def concurrentRun : List (Bool × Tx.Action) :=
  [(true, .coordinator [0]), (false, .coordinator [0])] ++
  (votes 0).map (true, ·) ++ (votes 0).map (false, ·) ++
  [(true, .coordinator []), (false, .coordinator []), (true, .coordinator []),
    (false, .coordinator [])] ++
  (onHost 0 [.handleRequest, .receiveCommand, .mongo (.storeNext 0), .timeout .commit]).map
    (false, ·) ++
  (commits 0).map (true, ·) ++ [(false, .coordinator []), (true, .coordinator [])] ++
  (onHost 0 [.handleRequest, .receiveCommand, .mongo (.applyDelete 0)]).map (false, ·)

end Sample

/-- In the sample run the first post stores what it stores by itself. -/
theorem transactions_do_not_interfere_sample :
    ∃ s s', run (concurrently Sample.posts) (startAll Sample.posts fun _ => [])
        Sample.concurrentRun = some s ∧
      run (transition (Sample.posts true)) (start (Sample.posts true) fun _ => [])
        (actionsOf true Sample.concurrentRun) = some s' ∧
      ∀ host, ofTx "t" (s.2 host) = ofTx "t" (s'.2 host) := by
  have hinj : Function.Injective fun first => (Sample.posts first).txId := by
    intro a b h
    cases a <;> cases b <;> first | rfl | exact absurd h (by decide)
  obtain ⟨s, hs⟩ := Option.isSome_iff_exists.mp
    (show (run (concurrently Sample.posts) (startAll Sample.posts fun _ => [])
      Sample.concurrentRun).isSome = true by decide)
  obtain ⟨⟨s', hs', -, hsame⟩, -⟩ := transactions_do_not_interfere hinj hs true
  exact ⟨s, s', hs, hs', hsame⟩

end RsoVoting.TwoPhase
