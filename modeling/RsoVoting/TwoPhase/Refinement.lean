import RsoVoting.Lib.Replication
import RsoVoting.TwoPhase.Frame

namespace RsoVoting.TwoPhase

open Relation RsoVoting.Runs RsoVoting.Interleave RsoVoting.Replication

/-!
# Two-phase commit as replication

What a transaction is for does not need its coordinator, connections, frames and promises to
be said: its documents are to be stored at `REDUNDANCY` hosts that are chosen once, or it is
given up.  `Replication` says just that, and this file shows that every run of the actors,
with whatever failures and among whatever other transactions, is a history of such a job:

* `entry` — a state of a transaction as an entry: the selection, the documents at each host,
  and how far the coordinator is;
* `entry_advance` / `entry_rule` — a step of the coordinator, and of a connection, is a step
  of the entry or none;
* `entry_steps` — so concurrent runs are histories of all their transactions;
* `refines_replication` — from the start, and from every state that is reached;
* `lost_only_by_rollback` — what the library says of histories, for the collections.
-/

/-- What a step does to the documents of the transaction: nothing, or a running insert stores
    one more, or a delete removes all of them. -/
theorem Connection.Rule.ofTx_cases {txId : String} {documents : List Document}
    {c c' : Connection} {votes votes' : List Document} {a : ConnAction}
    (h : Rule txId documents c votes a c' votes') :
    ofTx txId votes' = ofTx txId votes ∨
      (∃ op ∈ c.agent.inserts, op.completed = none ∧ ∃ doc ∈ op.docs, votes' = votes ++ [doc]) ∨
      c.agent.deletes ≠ [] ∧ ofTx txId votes' = [] := by
  cases h with
  | @storeNext k op doc hop hdoc hrun =>
    exact .inr (.inl ⟨op, List.mem_of_getElem? hop, hrun, doc, List.mem_of_getElem? hdoc, rfl⟩)
  | @applyDelete k op hop =>
    by_cases htx : op.txId = some txId
    · rw [htx, ofTx_delete_self]
      exact .inr (.inr ⟨List.ne_nil_of_mem (List.mem_of_getElem? hop), rfl⟩)
    · exact .inl (ofTx_delete_of_ne htx votes)
  | _ => exact .inl rfl

variable {H ι : Type}

/-- What a transaction has to store. -/
def Transaction.job (cfg : Transaction H) : Job H Document where
  hosts := cfg.dbHostsConf
  copies := cfg.minDbsCount
  docs := cfg.documents

/-- How far the coordinator is. -/
def Coordinator.phase : Coordinator → Replication.Phase
  | .rollingBack _  => .aborting
  | .done _ .ok     => .accepted
  | .done _ .error  => .rejected
  | _               => .open

theorem Coordinator.phase_eq_accepted {coord : Coordinator} :
    coord.phase = .accepted ↔ ∃ actors, coord = .done actors .ok := by
  cases coord with
  | done actors answer => cases answer <;> simp [phase]
  | _ => simp [phase]

/-- A state of a transaction, without its actors. -/
def entry (cfg : Transaction H) (s : State H) : Entry H Document where
  chosen := s.1.coord.selected.map (chosenHosts cfg)
  held host := ofTx cfg.txId (s.2 host)
  phase := s.1.coord.phase

/-- A transaction is given up when it is rolling back, or has been answered with `error`. -/
theorem givenUp_entry_iff {cfg : Transaction H} {s : State H} : (entry cfg s).GivenUp ↔
    (∃ actors, s.1.coord = .rollingBack actors) ∨ Answered s .error := by
  show s.1.coord.phase = .aborting ∨ s.1.coord.phase = .rejected ↔ _
  unfold Answered
  cases s.1.coord with
  | done actors answer => cases answer <;> simp [Coordinator.phase]
  | _ => simp [Coordinator.phase]

/-- A transaction that has asked a host to roll back is given up. -/
theorem Invariant.givenUp_of_asked {cfg : Transaction H} {s : State H} (hinv : Invariant cfg s.1)
    {i : ℕ} (hasked : (s.1.conn i).rollbackAsk ≠ .unsent) : (entry cfg s).GivenUp := by
  have hc := hinv.coordinated
  unfold Coordinated at hc
  split at hc
  case h_1 | h_2 => exact absurd (hc.2.2.2.2.2.2 i (by simp)) hasked
  case h_3 => exact absurd (hc.2.2 i (by simp)) hasked
  case h_4 hcoord => exact .inl (congrArg Coordinator.phase hcoord)
  case h_5 hcoord => exact .inr (congrArg Coordinator.phase hcoord)
  case h_6 => exact absurd (hc.2.2.1 i (by simp)) hasked
  case h_7 => exact absurd (hc.2 i (by simp)) hasked
  case h_8 => exact hc.elim

/-- No insert of an accepted transaction is still running. -/
theorem Invariant.completed_of_ok {cfg : Transaction H} {tx : Tx} (hinv : Invariant cfg tx)
    {actors : Option (List ℕ)} (hdone : tx.coord = .done actors .ok) {i : ℕ} {op : InsertMany}
    (hop : op ∈ (tx.conn i).agent.inserts) : op.completed ≠ none := by
  have hc := hinv.coordinated
  rw [Coordinated, hdone] at hc
  cases actors with
  | none => exact hc.elim
  | some actors =>
    obtain ⟨-, hco, hro, hack⟩ := hc
    have hsound := hinv.sound i
    have hactor : i ∈ actors := by
      by_contra hnot
      exact List.ne_nil_of_mem hop (hsound.tokens.inserts_eq_nil (hco i hnot))
    -- the acknowledged insert is the only one
    obtain ⟨op', hop', hdone'⟩ := hsound.acked (hro i (by simp)) (.inr (hack i hactor))
    obtain ⟨k, hk⟩ := List.getElem?_of_mem hop
    obtain ⟨-, hsingle⟩ := hsound.tokens.inserts_eq_singleton hk
    obtain rfl : op' = op := by simpa [hsingle] using hop'
    simp [hdone']

variable [DecidableEq H]

/-- **The coordinator's steps.**  It chooses the hosts when it goes on to commit; asking for
    votes is not seen. -/
theorem entry_advance {cfg : Transaction H} (hconf : cfg.dbHostsConf.Nodup) {tx tx' : Tx}
    {votes : H → List Document} (hinv : Invariant cfg tx) (hs : Stored cfg (tx, votes))
    (h : tx.Advance cfg.minDbsCount tx') :
    ReflGen (Step cfg.job) (entry cfg (tx, votes)) (entry cfg (tx', votes)) := by
  obtain ⟨coord, conn⟩ := tx
  have hc := hinv.coordinated
  have hc' := (hinv.advance h).coordinated
  cases h with
  | notEnough hcoord =>
    obtain rfl : coord = _ := hcoord
    exact .single (.reject (.inr ⟨rfl, rfl⟩))
  | startRound hcoord | endRound hcoord =>
    obtain rfl : coord = _ := hcoord
    exact .refl
  | @sendCommit potential commiting hcoord =>
    obtain rfl : coord = _ := hcoord
    obtain ⟨helected, -, -⟩ := hc'
    refine .single (.choose rfl rfl (nodup_chosenHosts hconf helected.nodup) ?_ ?_)
    · exact (length_chosenHosts helected.valid).trans helected.count
    · intro host hhost
      obtain ⟨i, -, hi⟩ := mem_chosenHosts.mp hhost
      exact List.mem_of_getElem? hi
  | @succeed actors hcoord hack =>
    obtain rfl : coord = _ := hcoord
    obtain ⟨-, -, hro⟩ := hc
    refine .single (.accept rfl rfl fun host hhost => ?_)
    obtain ⟨i, hactor, hi⟩ := mem_chosenHosts.mp hhost
    exact (hinv.sound i).eq_of_acked (hs i host hi) (hack i hactor) (hro i (by simp))
  | @startRollback actors hcoord =>
    obtain rfl : coord = _ := hcoord
    exact .single (.abort rfl rfl)
  | @finishRollback actors hcoord =>
    obtain rfl : coord = _ := hcoord
    exact .single (.reject (.inl rfl))

/-- **The steps of a connection.**  A document that is stored is put, a delete by the id of the
    transaction drops all of them, and nothing else is seen. -/
theorem entry_rule {cfg : Transaction H} {tx : Tx} {votes : H → List Document} {i : ℕ} {host : H}
    {c : Connection} {vs : List Document} {a : Connection.ConnAction} (hinv : Invariant cfg tx)
    (hs : Stored cfg (tx, votes)) (hhost : cfg.dbHostsConf[i]? = some host)
    (h : (tx.conn i).Rule cfg.txId cfg.documents (votes host) a c vs) :
    ReflGen (Step cfg.job) (entry cfg (tx, votes))
      (entry cfg ({ tx with conn := Function.update tx.conn i c },
        Function.update votes host vs)) := by
  have hsound := hinv.sound i
  have hheld : (fun host' => ofTx cfg.txId (Function.update votes host vs host')) =
      Function.update (fun host' => ofTx cfg.txId (votes host')) host (ofTx cfg.txId vs) := by
    ext1 host'
    by_cases hh : host' = host
    · subst hh
      rw [Function.update_self, Function.update_self]
    · rw [Function.update_of_ne hh, Function.update_of_ne hh]
  have hentry : entry cfg ({ tx with conn := Function.update tx.conn i c },
      Function.update votes host vs) = { entry cfg (tx, votes) with
        held := Function.update (entry cfg (tx, votes)).held host (ofTx cfg.txId vs) } :=
    Entry.ext rfl hheld rfl
  rw [hentry]
  rcases h.ofTx_cases with hsame | ⟨op, hop, hrun, doc, hdoc, rfl⟩ | ⟨hdel, hnil⟩
  · rw [hsame, show ofTx cfg.txId (votes host) = (entry cfg (tx, votes)).held host from rfl,
      Function.update_eq_self]
  · -- an insert is running, so the host has been chosen
    have hd : op.docs = cfg.documents := (hsound.payload.inserts op hop).1
    have hasked : (tx.conn i).commitAsk ≠ .unsent := fun hu =>
      List.ne_nil_of_mem hop (hsound.tokens.inserts_eq_nil hu)
    obtain ⟨actors, hsel, -, hactor⟩ := hinv.elected_of_asked hasked
    have hcontents := (hs i host hhost).step hsound.tokens hsound.payload cfg.tagged h
    have hsub := hcontents.sublist.trans (hsound.step h).storedDocs_sublist
    rw [ofTx_concat_self (cfg.tagged doc (hd ▸ hdoc))] at hsub ⊢
    refine .single (.put (fun hacc => ?_) (congrArg (Option.map (chosenHosts cfg)) hsel)
      (mem_chosenHosts.mpr ⟨i, hactor, hhost⟩) hsub)
    obtain ⟨actors', hdone⟩ := Coordinator.phase_eq_accepted.mp hacc
    exact hinv.completed_of_ok hdone hop hrun
  · rw [hnil]
    exact .single (.drop host (hinv.givenUp_of_asked fun hu =>
      hdel (hsound.tokens.deletes_eq_nil hu)))

/-- **Step lemma.** -/
theorem entry_step {cfg : Transaction H} (hconf : cfg.dbHostsConf.Nodup) {s s' : State H}
    {a : Tx.Action} (hinv : Invariant cfg s.1) (hs : Stored cfg s)
    (h : transition cfg s a = some s') :
    ReflGen (Step cfg.job) (entry cfg s) (entry cfg s') := by
  obtain ⟨tx, votes⟩ := s
  obtain ⟨tx', votes'⟩ := s'
  cases a with
  | coordinator shuffled =>
    obtain ⟨hadv, rfl⟩ := Tx.advance_of_step h
    exact entry_advance hconf hinv hs hadv
  | connection i a =>
    obtain ⟨host, c, vs, hhost, -, hrule, rfl, rfl⟩ := Tx.connection_of_step h
    exact entry_rule hinv hs hhost hrule

/-- **Run lemma.** -/
theorem entry_run {cfg : Transaction H} (hconf : cfg.dbHostsConf.Nodup) {s s' : State H}
    {as : List Tx.Action} (hinv : Invariant cfg s.1) (hs : Stored cfg s)
    (hrun : run (transition cfg) s as = some s') :
    ReflTransGen (Step cfg.job) (entry cfg s) (entry cfg s') :=
  run_rel (I := fun s => Invariant cfg s.1 ∧ Stored cfg s)
    (R := fun s s' => ReflTransGen (Step cfg.job) (entry cfg s) (entry cfg s'))
    (fun _ => .refl) (fun _ _ _ => .trans)
    (fun _ _ _ hI h => ⟨hI.1.step h, hI.2.step hconf hI.1 h⟩)
    (fun _ _ _ hI h => (entry_step hconf hI.1 hI.2 h).to_reflTransGen) ⟨hinv, hs⟩ hrun

section Concurrent

variable [DecidableEq ι] {cfg : ι → Transaction H} {votes : H → List Document}
  {as later : List (ι × Tx.Action)} {s s' : (ι → Tx) × (H → List Document)}

/-- Other transactions are not seen: a run that goes on from a state is a history of each. -/
theorem entry_steps (hinj : Function.Injective fun t => (cfg t).txId)
    (hconf : ∀ t, (cfg t).dbHostsConf.Nodup) (hfresh : ∀ t, Fresh (cfg t) votes)
    (hrun : run (concurrently cfg) (startAll cfg votes) as = some s)
    (hlater : run (concurrently cfg) s later = some s') (t : ι) :
    ReflTransGen (Step (cfg t).job) (entry (cfg t) (s.1 t, s.2))
      (entry (cfg t) (s'.1 t, s'.2)) := by
  obtain ⟨votes₁, hrun₁, hobs⟩ := run_project (unwinding hinj) t
    (fun u => Invariant.init (cfg u)) rfl hrun
  obtain ⟨votes₂, hrun₂, hobs'⟩ := run_project (unwinding hinj) t
    (invariant_of_concurrent_run hrun) hobs hlater
  have hsteps := entry_run (hconf t) (invariant_of_run hrun₁)
    (stored_of_run (hconf t) (hfresh t) hrun₁) hrun₂
  have hentry : entry (cfg t) (s.1 t, s.2) = entry (cfg t) (s.1 t, votes₁) :=
    Entry.ext rfl hobs rfl
  have hentry' : entry (cfg t) (s'.1 t, s'.2) = entry (cfg t) (s'.1 t, votes₂) :=
    Entry.ext rfl hobs' rfl
  rw [hentry, hentry']
  exact hsteps

/-- From the start, where nothing has been done. -/
theorem entry_history (hinj : Function.Injective fun t => (cfg t).txId)
    (hconf : ∀ t, (cfg t).dbHostsConf.Nodup) (hfresh : ∀ t, Fresh (cfg t) votes)
    (hrun : run (concurrently cfg) (startAll cfg votes) as = some s) (t : ι) :
    ReflTransGen (Step (cfg t).job) {} (entry (cfg t) (s.1 t, s.2)) := by
  have hstart : entry (cfg t) ((startAll cfg votes).1 t, votes) = {} :=
    Entry.ext rfl (funext (hfresh t)) rfl
  rw [← hstart]
  exact entry_steps hinj hconf hfresh (run_nil _) hrun t

/-- An accepted transaction is what it is from then on. -/
theorem entry_eq_of_ok (hinj : Function.Injective fun t => (cfg t).txId)
    (hconf : ∀ t, (cfg t).dbHostsConf.Nodup) (hfresh : ∀ t, Fresh (cfg t) votes)
    (hrun : run (concurrently cfg) (startAll cfg votes) as = some s)
    (hlater : run (concurrently cfg) s later = some s') {t : ι}
    (hok : Answered (s.1 t, s.2) .ok) :
    entry (cfg t) (s'.1 t, s'.2) = entry (cfg t) (s.1 t, s.2) :=
  eq_of_accepted (entry_steps hinj hconf hfresh hrun hlater t)
    (Coordinator.phase_eq_accepted.mpr hok)

/-- **Two-phase commit refines replication.**  In every interleaved run of transactions with
    distinct ids, whatever is lost, late or failing, every transaction goes through a history
    of its job: the hosts are chosen once and all at the same time, documents are stored at
    them alone, it is accepted only when all of them are complete, and dropped only after it
    has been given up. -/
theorem refines_replication (hinj : Function.Injective fun t => (cfg t).txId)
    (hconf : ∀ t, (cfg t).dbHostsConf.Nodup) (hfresh : ∀ t, Fresh (cfg t) votes)
    (hrun : run (concurrently cfg) (startAll cfg votes) as = some s) (t : ι) :
    ReflTransGen (Step (cfg t).job) {} (entry (cfg t) (s.1 t, s.2)) ∧
      ∀ later s', run (concurrently cfg) s later = some s' →
        ReflTransGen (Step (cfg t).job) (entry (cfg t) (s.1 t, s.2))
          (entry (cfg t) (s'.1 t, s'.2)) :=
  ⟨entry_history hinj hconf hfresh hrun t,
    fun _ _ hlater => entry_steps hinj hconf hfresh hrun hlater t⟩

/-- **Only a rollback takes a document away.**  What a host holds at some time and does not
    hold at a later one is a document of a transaction that had chosen the host, and that is
    by then rolling back, or has been answered with `error`. -/
theorem lost_only_by_rollback (hinj : Function.Injective fun t => (cfg t).txId)
    (hconf : ∀ t, (cfg t).dbHostsConf.Nodup) (hfresh : ∀ t, Fresh (cfg t) votes)
    (hrun : run (concurrently cfg) (startAll cfg votes) as = some s)
    (hlater : run (concurrently cfg) s later = some s') {host : H} {d : Document}
    (hd : d ∈ s.2 host) (hgone : d ∉ s'.2 host) :
    ∃ t, d ∈ (cfg t).documents ∧
      (∃ actors, (s.1 t).coord.selected = some actors ∧ host ∈ chosenHosts (cfg t) actors) ∧
      ((∃ actors, (s'.1 t).coord = .rollingBack actors) ∨ Answered (s'.1 t, s'.2) .error) := by
  have hnaming := (Naming.of_run (fun t => .init (cfg t)) hrun).1
  obtain ⟨t, ht⟩ : ∃ t, d.txId = some (.string (cfg t).txId) := by
    by_contra hnone
    -- it is not touched if it belongs to no transaction
    have hkept := (Naming.of_run hnaming hlater).2 (fun d' => d' = d)
      (fun d' hd' t ht => hnone ⟨t, of_decide_eq_true hd' ▸ ht⟩) host
    have hmem : d ∈ (s'.2 host).filter fun d' => d' = d :=
      hkept ▸ List.mem_filter.mpr ⟨hd, decide_eq_true rfl⟩
    exact hgone (List.mem_of_mem_filter hmem)
  have hheld : d ∈ (entry (cfg t) (s.1 t, s.2)).held host :=
    List.mem_filter.mpr ⟨hd, decide_eq_true ht⟩
  have hsound := sound_of_steps (entry_history hinj hconf hfresh hrun t)
  obtain ⟨hosts, hchosen, hhost⟩ := hsound.holders host (List.ne_nil_of_mem hheld)
  obtain ⟨actors, hsel, rfl⟩ := Option.map_eq_some_iff.mp hchosen
  refine ⟨t, (hsound.sublist host).subset hheld, ⟨actors, hsel, hhost⟩, ?_⟩
  have hup : (entry (cfg t) (s'.1 t, s'.2)).GivenUp := by
    by_contra hup
    have hgrows := grows_of_steps (entry_steps hinj hconf hfresh hrun hlater t) hup host
    exact hgone (List.mem_of_mem_filter (hgrows.subset hheld))
  exact givenUp_entry_iff.mp hup

end Concurrent

/-! ### A sample run

The two posts of `Interference`: the second one has stored its vote when it is rolled back.
-/

theorem Sample.txId_injective : Function.Injective fun first => (posts first).txId := by
  intro a b h
  cases a <;> cases b <;> first | rfl | exact absurd h (by decide)

/-- The history of the first post. -/
theorem refines_replication_sample :
    ∃ s, run (concurrently Sample.posts) (startAll Sample.posts fun _ => [])
        Sample.concurrentRun = some s ∧
      ReflTransGen (Step (Sample.posts true).job) {}
        (entry (Sample.posts true) (s.1 true, s.2)) := by
  obtain ⟨s, hs⟩ := Option.isSome_iff_exists.mp
    (show (run (concurrently Sample.posts) (startAll Sample.posts fun _ => [])
      Sample.concurrentRun).isSome = true by decide)
  exact ⟨s, hs, (refines_replication Sample.txId_injective (fun _ => List.nodup_singleton 10)
    (fun _ _ => rfl) hs true).1⟩

/-- The last step takes a vote away. -/
theorem lost_only_by_rollback_sample :
    ∃ s s', run (concurrently Sample.posts) (startAll Sample.posts fun _ => [])
        Sample.concurrentRun.dropLast = some s ∧
      run (concurrently Sample.posts) s [(false, .connection 0 (.mongo (.applyDelete 0)))] =
        some s' ∧
      ∃ t, ((∃ actors, (s'.1 t).coord = .rollingBack actors) ∨
        Answered (s'.1 t, s'.2) .error) := by
  have hruns : ((run (concurrently Sample.posts) (startAll Sample.posts fun _ => [])
      Sample.concurrentRun.dropLast).bind fun s => (run (concurrently Sample.posts) s
        [(false, .connection 0 (.mongo (.applyDelete 0)))]).map fun s' =>
          (s.2 10).filter fun d => d ∉ s'.2 10) = some (Sample.posts false).documents := by
    decide
  obtain ⟨s, hs, hlast⟩ := Option.bind_eq_some_iff.mp hruns
  obtain ⟨s', hs', hlost⟩ := Option.map_eq_some_iff.mp hlast
  obtain ⟨d, hd⟩ : ∃ d, d ∈ (s.2 10).filter fun d => d ∉ s'.2 10 := by
    rw [hlost]
    exact ⟨_, List.mem_cons_self ..⟩
  obtain ⟨hd, hgone⟩ := List.mem_filter.mp hd
  obtain ⟨t, -, -, hup⟩ := lost_only_by_rollback Sample.txId_injective
    (fun _ => List.nodup_singleton 10) (fun _ _ => rfl) hs hs' hd (of_decide_eq_true hgone)
  exact ⟨s, s', hs, hs', t, hup⟩

end RsoVoting.TwoPhase
