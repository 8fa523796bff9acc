import RsoVoting.TwoPhase.Coordination

namespace RsoVoting.TwoPhase

open RsoVoting.Runs RsoVoting.Interleave

/-!
# Where a transaction's documents are

Two safety results about every run of one transaction, with any failures of connections,
timeouts, lost frames and failing or partial inserts:

* `stored_only_at_elected` — documents appear only at the hosts of a complete selection,
  at most once each, so at most `REDUNDANCY` hosts ever hold any;
* `accepted_is_durable` — once the coordinator has answered `Ok`, exactly the selected
  hosts hold exactly the documents, from then on.

They add two things to the invariant of `Coordination`: the coordinator's selection, once
made, never changes (`Coordinator.selected`), and a host's collection has of the
transaction what its one connection put there (`Stored`).
-/

variable {H : Type}

/-! ### The selection, once made, stays -/

/-- The hosts that the coordinator has gone on to commit at. -/
def Coordinator.selected : Coordinator → Option (List ℕ)
  | .committing actors | .rollingBack actors => some actors
  | .done actors _                           => actors
  | _                                        => none

/-- The names of the hosts with these indices. -/
def chosenHosts (cfg : Transaction H) (actors : List ℕ) : List H :=
  actors.filterMap fun i => cfg.dbHostsConf[i]?

theorem mem_chosenHosts {cfg : Transaction H} {actors : List ℕ} {host : H} :
    host ∈ chosenHosts cfg actors ↔ ∃ i ∈ actors, cfg.dbHostsConf[i]? = some host := by
  simp [chosenHosts]

/-- Valid indices all name a host. -/
theorem length_chosenHosts {cfg : Transaction H} {actors : List ℕ}
    (hvalid : ∀ i ∈ actors, i < cfg.dbHostsConf.length) :
    (chosenHosts cfg actors).length = actors.length := by
  -- no index is dropped by the lookup
  induction actors with
  | nil => rfl
  | cons i actors ih =>
    have hlt : i < cfg.dbHostsConf.length := hvalid i (by simp)
    have hi : cfg.dbHostsConf[i]? = some cfg.dbHostsConf[i] := List.getElem?_eq_getElem hlt
    have ih' := ih fun j hj => hvalid j (by simp [hj])
    simpa [chosenHosts, List.filterMap_cons, hi] using ih'

/-- Distinct indices of a host list without repetitions name distinct hosts. -/
theorem index_unique {hosts : List H} (hnd : hosts.Nodup) {i j : ℕ} {host : H}
    (hi : hosts[i]? = some host) (hj : hosts[j]? = some host) : i = j := by
  obtain ⟨hi', hi⟩ := List.getElem?_eq_some_iff.mp hi
  obtain ⟨hj', hj⟩ := List.getElem?_eq_some_iff.mp hj
  exact (List.Nodup.getElem_inj_iff hnd).mp (hi.trans hj.symm)

/-- Distinct indices name distinct hosts. -/
theorem nodup_chosenHosts {cfg : Transaction H} {actors : List ℕ}
    (hconf : cfg.dbHostsConf.Nodup) (hnd : actors.Nodup) : (chosenHosts cfg actors).Nodup :=
  hnd.filterMap fun _ _ _ hi hj => index_unique hconf hi hj

theorem Tx.Advance.selected {minDbsCount : ℕ} {tx tx' : Tx}
    (h : tx.Advance minDbsCount tx') {actors : List ℕ}
    (hsel : tx.coord.selected = some actors) : tx'.coord.selected = some actors := by
  cases h <;> simp_all [Coordinator.selected]

/-- A finished coordinator takes no further step. -/
theorem Tx.Advance.not_done {minDbsCount : ℕ} {tx tx' : Tx}
    (h : tx.Advance minDbsCount tx') (actors : Option (List ℕ)) (r : Result) :
    tx.coord ≠ .done actors r := by
  cases h <;> simp_all

section Runs

variable [DecidableEq H] {cfg : Transaction H} {s s' : State H} {as : List Tx.Action}

/-- A step of the transaction moves the coordinator by one of its rules or not at all. -/
theorem coord_of_step {a : Tx.Action} (h : transition cfg s a = some s') :
    s'.1.coord = s.1.coord ∨ s.1.Advance cfg.minDbsCount s'.1 := by
  obtain ⟨tx, votes⟩ := s
  obtain ⟨tx', votes'⟩ := s'
  cases a with
  | coordinator shuffled =>
    exact .inr (Tx.advance_of_step h).1
  | connection i a =>
    obtain ⟨_, _, _, -, -, -, rfl, rfl⟩ := Tx.connection_of_step h
    exact .inl rfl

/-- The selection stays what it is along a run. -/
theorem selected_of_run (hrun : run (transition cfg) s as = some s') {actors : List ℕ}
    (hsel : s.1.coord.selected = some actors) : s'.1.coord.selected = some actors := by
  refine run_invariant (I := fun s => s.1.coord.selected = some actors) ?_ hsel hrun
  intro s a s' hs h
  rcases coord_of_step h with hcoord | hadv
  · rw [hcoord]
    exact hs
  · exact hadv.selected hs

/-- The coordinator answers once and for all. -/
theorem done_of_run (hrun : run (transition cfg) s as = some s') {actors : Option (List ℕ)}
    {r : Result} (hdone : s.1.coord = .done actors r) : s'.1.coord = .done actors r := by
  refine run_invariant (I := fun s => s.1.coord = .done actors r) ?_ hdone hrun
  intro s a s' hs h
  rcases coord_of_step h with hcoord | hadv
  · rw [hcoord]
    exact hs
  · exact absurd hs (hadv.not_done actors r)

end Runs

/-! ### What the invariant says about the collections -/

/-- Every host's collection has of the transaction what its connection put there. -/
def Stored (cfg : Transaction H) (s : State H) : Prop :=
  ∀ i host, cfg.dbHostsConf[i]? = some host →
    Connection.Contents cfg.txId (s.1.conn i) (s.2 host)

/-- Asking and telling leaves the collections. -/
theorem Stored.advance {cfg : Transaction H} {tx tx' : Tx} {votes : H → List Document}
    (hs : Stored cfg (tx, votes)) (h : tx.Advance cfg.minDbsCount tx') :
    Stored cfg (tx', votes) := by
  have hask : ∀ (hosts : List ℕ) (p : Phase) i host, cfg.dbHostsConf[i]? = some host →
      Connection.Contents cfg.txId (Tx.onEach tx.conn hosts (·.sendAsk p) i) (votes host) := by
    intro hosts p i host hi
    by_cases hmem : i ∈ hosts
    · rw [onEach_of_mem hmem]
      refine (hs i host hi).of_agent_eq (Connection.sendAsk_agent _ p) fun hu => ?_
      have hask := Connection.ask_sendAsk (tx.conn i) p .rollback
      rw [show ((tx.conn i).sendAsk p).ask .rollback = .unsent from hu] at hask
      split at hask
      · simp at hask
      · exact hask.symm
    · rw [onEach_of_notMem hmem]
      exact hs i host hi
  have htell : ∀ (hosts : List ℕ) (r : Request) i host, cfg.dbHostsConf[i]? = some host →
      Connection.Contents cfg.txId (Tx.onEach tx.conn hosts (·.tell r) i) (votes host) := by
    intro hosts r i host hi
    by_cases hmem : i ∈ hosts
    · rw [onEach_of_mem hmem]
      exact (hs i host hi).of_agent_eq (Connection.tell_agent _ r) id
    · rw [onEach_of_notMem hmem]
      exact hs i host hi
  cases h with
  | notEnough | endRound => exact hs
  | startRound | sendCommit | startRollback => exact hask _ _
  | succeed | finishRollback => exact htell _ _

section Runs

variable [DecidableEq H] {cfg : Transaction H} {s s' : State H}

/-- **Step lemma** for the collections, over hosts without repetitions. -/
theorem Stored.step (hconf : cfg.dbHostsConf.Nodup) {a : Tx.Action}
    (hinv : Invariant cfg s.1) (hs : Stored cfg s) (h : transition cfg s a = some s') :
    Stored cfg s' := by
  obtain ⟨tx, votes⟩ := s
  obtain ⟨tx', votes'⟩ := s'
  cases a with
  | coordinator shuffled =>
    obtain ⟨hadv, rfl⟩ := Tx.advance_of_step h
    exact hs.advance hadv
  | connection i a =>
    obtain ⟨host, c, vs, hhost, -, hrule, rfl, rfl⟩ := Tx.connection_of_step h
    intro j hostj hj
    -- hosts are distinct, so each collection is written over one connection only
    by_cases hij : j = i
    · subst hij
      obtain rfl : hostj = host := Option.some.inj (hj.symm.trans hhost)
      simp only [Function.update_self]
      exact (hs j hostj hj).step (hinv.sound j).tokens (hinv.sound j).payload cfg.tagged hrule
    · have hne : hostj ≠ host := fun e => hij (index_unique hconf hj (e ▸ hhost))
      simp only [Function.update_of_ne hij, Function.update_of_ne hne]
      exact hs j hostj hj

/-- **Run lemma** for the collections. -/
theorem stored_of_run (hconf : cfg.dbHostsConf.Nodup) {votes : H → List Document}
    (hfresh : Fresh cfg votes) {as : List Tx.Action}
    (hrun : run (transition cfg) (start cfg votes) as = some s) : Stored cfg s :=
  (run_invariant (I := fun s => Invariant cfg s.1 ∧ Stored cfg s)
    (fun _ _ _ hI h => ⟨hI.1.step h, hI.2.step hconf hI.1 h⟩)
    ⟨.init cfg, fun _ host _ => Connection.Contents.initial (hfresh host)⟩ hrun).2

end Runs

namespace Connection

variable {txId : String} {documents : List Document} {c : Connection} {votes : List Document}

/-- The agent has stored a prefix of the transaction's documents, once. -/
theorem Sound.storedDocs_sublist (hc : Sound txId documents c) :
    c.storedDocs.Sublist documents := by
  cases hins : c.agent.inserts with
  | nil => simp [storedDocs, hins]
  | cons op rest =>
    obtain ⟨-, hsingle⟩ :=
      hc.tokens.inserts_eq_singleton (show c.agent.inserts[0]? = some op by simp [hins])
    obtain ⟨hd, -, -⟩ := hc.payload.inserts op (by simp [hins])
    simpa [storedDocs, hsingle, hd] using List.take_sublist op.stored documents

/-- A host that has not been asked to commit holds nothing of the transaction. -/
theorem Sound.eq_nil_of_unsent (hc : Sound txId documents c) (hv : Contents txId c votes)
    (hu : c.commitAsk = .unsent) : ofTx txId votes = [] := by
  have hnil : c.storedDocs = [] := by simp [storedDocs, hc.tokens.inserts_eq_nil hu]
  exact List.sublist_nil.mp (hnil ▸ hv.sublist)

/-- A host that acknowledged the commit, and was not asked to roll back, holds exactly the
    transaction's documents. -/
theorem Sound.eq_of_acked (hc : Sound txId documents c) (hv : Contents txId c votes)
    (hack : c.commitAsk = .answered .ack) (hu : c.rollbackAsk = .unsent) :
    ofTx txId votes = documents := by
  obtain ⟨op, hop, hdone⟩ := hc.acked hu (.inr hack)
  obtain ⟨k, hk⟩ := List.getElem?_of_mem hop
  obtain ⟨-, hsingle⟩ := hc.tokens.inserts_eq_singleton hk
  obtain ⟨hd, -, hcomp⟩ := hc.payload.inserts op hop
  have hstored := hcomp hdone
  rw [hv.exact hu]
  simp [storedDocs, hsingle, hd, hstored]

end Connection

/-- A connection that has been asked to commit belongs to a complete selection. -/
theorem Invariant.elected_of_asked {cfg : Transaction H} {tx : Tx} (hinv : Invariant cfg tx)
    {i : ℕ} (hasked : (tx.conn i).commitAsk ≠ .unsent) :
    ∃ actors, tx.coord.selected = some actors ∧ Elected tx.conn cfg actors ∧ i ∈ actors := by
  have hc := hinv.coordinated
  unfold Coordinated at hc
  split at hc
  case h_1 => exact absurd (hc.2.2.2.2.2.1 i (by simp)) hasked
  case h_2 => exact absurd (hc.2.2.2.2.2.1 i (by simp)) hasked
  case h_7 => exact absurd (hc.1 i (by simp)) hasked
  case h_8 => exact hc.elim
  all_goals
    rename_i actors hcoord
    have hactor : i ∈ actors := by
      by_contra hnot
      exact hasked (hc.2.1 i hnot)
    -- the coordinator is committing or beyond, and has kept its selection
    exact ⟨actors, by rw [hcoord]; rfl, hc.1, hactor⟩

/-- A holder of documents is one of the hosts of a complete selection. -/
theorem Invariant.elected_of_holder {cfg : Transaction H} {s : State H}
    (hinv : Invariant cfg s.1) (hs : Stored cfg s) {host : H} (hmem : host ∈ cfg.dbHostsConf)
    (hheld : ofTx cfg.txId (s.2 host) ≠ []) :
    ∃ actors, s.1.coord.selected = some actors ∧ Elected s.1.conn cfg actors ∧
      host ∈ chosenHosts cfg actors := by
  obtain ⟨i, hi⟩ := List.getElem?_of_mem hmem
  obtain ⟨actors, hsel, helected, hactor⟩ := hinv.elected_of_asked fun hu =>
    hheld ((hinv.sound i).eq_nil_of_unsent (hs i host hi) hu)
  exact ⟨actors, hsel, helected, mem_chosenHosts.mpr ⟨i, hactor, hi⟩⟩

/-! ### The two results -/

variable [DecidableEq H]

/-- **No premature and no excess storing.**  In every state of every run, a host holds a
    document of the transaction only if the coordinator has collected `VoteOk` from
    `REDUNDANCY` distinct hosts and this is one of them; over the whole run at most
    `REDUNDANCY` hosts ever hold any, and none holds a document more often than the
    transaction has it. -/
theorem stored_only_at_elected {cfg : Transaction H} (hconf : cfg.dbHostsConf.Nodup)
    {votes : H → List Document} (hfresh : Fresh cfg votes) {as : List Tx.Action} {s : State H}
    (hrun : run (transition cfg) (start cfg votes) as = some s) :
    (∀ host ∈ cfg.dbHostsConf, ofTx cfg.txId (s.2 host) ≠ [] →
      ∃ actors, s.1.coord.selected = some actors ∧ Elected s.1.conn cfg actors ∧
        host ∈ chosenHosts cfg actors) ∧
    (∃ hosts : List H, hosts.length ≤ cfg.minDbsCount ∧
      ∀ before after s', as = before ++ after →
        run (transition cfg) (start cfg votes) before = some s' →
        ∀ host ∈ cfg.dbHostsConf, ofTx cfg.txId (s'.2 host) ≠ [] → host ∈ hosts) ∧
    ∀ host ∈ cfg.dbHostsConf, ∀ d,
      (ofTx cfg.txId (s.2 host)).count d ≤ cfg.documents.count d := by
  have hinv := invariant_of_run hrun
  have hstored := stored_of_run hconf hfresh hrun
  refine ⟨fun host hmem hheld => hinv.elected_of_holder hstored hmem hheld, ?_, ?_⟩
  · -- every earlier holder is in the selection that the run ends with
    have hlater : ∀ before after s', as = before ++ after →
        run (transition cfg) (start cfg votes) before = some s' →
        ∀ host ∈ cfg.dbHostsConf, ofTx cfg.txId (s'.2 host) ≠ [] →
        ∃ actors, s.1.coord.selected = some actors ∧ actors.length = cfg.minDbsCount ∧
          host ∈ chosenHosts cfg actors := by
      rintro before after s' rfl hbefore host hmem hheld
      obtain ⟨s'', hs'', hafter⟩ := run_append_eq_some.mp hrun
      obtain rfl : s'' = s' := Option.some.inj (hs''.symm.trans hbefore)
      obtain ⟨actors, hsel, helected, hchosen⟩ :=
        (invariant_of_run hbefore).elected_of_holder (stored_of_run hconf hfresh hbefore)
          hmem hheld
      exact ⟨actors, selected_of_run hafter hsel, helected.count, hchosen⟩
    -- so the hosts of that selection are all that ever hold anything
    cases hsel : s.1.coord.selected with
    | none =>
      refine ⟨[], by simp, fun before after s' has hbefore host hmem hheld => ?_⟩
      obtain ⟨actors, hsel', -, -⟩ := hlater before after s' has hbefore host hmem hheld
      simp [hsel] at hsel'
    | some actors =>
      refine ⟨(chosenHosts cfg actors).take cfg.minDbsCount, List.length_take_le _ _,
        fun before after s' has hbefore host hmem hheld => ?_⟩
      obtain ⟨actors', hsel', hcount, hchosen⟩ :=
        hlater before after s' has hbefore host hmem hheld
      obtain rfl : actors = actors' := Option.some.inj (hsel.symm.trans hsel')
      have hle : (chosenHosts cfg actors).length ≤ cfg.minDbsCount :=
        hcount ▸ List.length_filterMap_le _ _
      rwa [List.take_of_length_le hle]
  · intro host hmem d
    obtain ⟨i, hi⟩ := List.getElem?_of_mem hmem
    exact ((hstored i host hi).sublist.trans (hinv.sound i).storedDocs_sublist).count_le d

/-- **Durability of an accepted transaction.**  Once the coordinator has answered `Ok`, a
    fixed choice of `REDUNDANCY` distinct hosts holds exactly the transaction's documents
    and every other host holds none, in that state and in every later one. -/
theorem accepted_is_durable {cfg : Transaction H} (hconf : cfg.dbHostsConf.Nodup)
    {votes : H → List Document} (hfresh : Fresh cfg votes) {as : List Tx.Action} {s : State H}
    (hrun : run (transition cfg) (start cfg votes) as = some s) (hok : Answered s .ok) :
    ∃ hosts : List H, hosts.Nodup ∧ hosts.length = cfg.minDbsCount ∧
      (∀ host ∈ hosts, host ∈ cfg.dbHostsConf) ∧
      ∀ later s', run (transition cfg) s later = some s' →
        Answered s' .ok ∧
        (∀ host ∈ hosts, ofTx cfg.txId (s'.2 host) = cfg.documents) ∧
        ∀ host ∈ cfg.dbHostsConf, host ∉ hosts → ofTx cfg.txId (s'.2 host) = [] := by
  obtain ⟨actors?, hdone⟩ := hok
  have hc := (invariant_of_run hrun).coordinated
  rw [Coordinated, hdone] at hc
  cases actors? with
  | none => exact hc.elim
  | some actors =>
    obtain ⟨helected, -, -, -⟩ := hc
    refine ⟨chosenHosts cfg actors, nodup_chosenHosts hconf helected.nodup,
      (length_chosenHosts helected.valid).trans helected.count, ?_, ?_⟩
    · intro host hhost
      obtain ⟨i, -, hi⟩ := mem_chosenHosts.mp hhost
      exact List.mem_of_getElem? hi
    · intro later s' hlater
      have hrun' := run_append_eq_some.mpr ⟨s, hrun, hlater⟩
      have hinv' := invariant_of_run hrun'
      have hstored' := stored_of_run hconf hfresh hrun'
      have hdone' := done_of_run hlater hdone
      have hc' := hinv'.coordinated
      rw [Coordinated, hdone'] at hc'
      obtain ⟨-, hco, hro, hack⟩ := hc'
      refine ⟨⟨some actors, hdone'⟩, ?_, ?_⟩
      · intro host hhost
        obtain ⟨i, hactor, hi⟩ := mem_chosenHosts.mp hhost
        exact (hinv'.sound i).eq_of_acked (hstored' i host hi) (hack i hactor) (hro i (by simp))
      · intro host hmem hnot
        obtain ⟨i, hi⟩ := List.getElem?_of_mem hmem
        have hactor : i ∉ actors := fun hactor =>
          hnot (mem_chosenHosts.mpr ⟨i, hactor, hi⟩)
        exact (hinv'.sound i).eq_nil_of_unsent (hstored' i host hi) (hco i hactor)

/-! ### A sample run

Three hosts, redundancy two: in the first round host `1` refuses the connection, the second
round asks host `2`, and the two hosts that voted ok commit.
-/

namespace Sample

/-- A transaction of one document over three hosts. -/
def transaction : Transaction ℕ where
  dbHostsConf := [10, 20, 30]
  minDbsCount := 2
  txId := "t"
  documents := [{ txId := some (.string "t") }]
  tagged := by decide

/-- Steps of the connection to host `i`. -/
def onHost (i : ℕ) (as : List Connection.ConnAction) : List Tx.Action :=
  as.map (.connection i)

/-- A host votes ok. -/
def votes (i : ℕ) : List Tx.Action :=
  onHost i [.handleRequest, .connected, .receiveCommand, .receiveReply]

/-- A host commits and acknowledges. -/
def commits (i : ℕ) : List Tx.Action :=
  onHost i [.handleRequest, .receiveCommand, .mongo (.storeNext 0),
    .mongo (.insertCompletes 0 true), .receiveReply, .stopAgent]

/-- A run that the coordinator answers with `Ok`. -/
def acceptedRun : List Tx.Action :=
  [.coordinator [0, 1, 2]] ++ votes 0 ++ onHost 1 [.handleRequest, .commandFailed] ++
  [.coordinator [], .coordinator [2]] ++ votes 2 ++ [.coordinator [], .coordinator []] ++
  commits 0 ++ commits 2 ++ [.coordinator []]

end Sample

/-- At the end of the sample run the two committing hosts hold the document. -/
theorem stored_only_at_elected_sample :
    ∃ s, run (transition Sample.transaction) (start Sample.transaction fun _ => [])
        Sample.acceptedRun = some s ∧
      (∀ host ∈ [10, 20, 30], ofTx "t" (s.2 host) ≠ [] →
        ∃ actors, s.1.coord.selected = some actors ∧
          Elected s.1.conn Sample.transaction actors ∧
          host ∈ chosenHosts Sample.transaction actors) := by
  obtain ⟨s, hs⟩ := Option.isSome_iff_exists.mp
    (show (run (transition Sample.transaction) (start Sample.transaction fun _ => [])
      Sample.acceptedRun).isSome = true by decide)
  exact ⟨s, hs, (stored_only_at_elected (by decide) (fun _ => rfl) hs).1⟩

/-- The sample run is accepted, so two hosts hold the document from its end on. -/
theorem accepted_is_durable_sample :
    ∃ s, run (transition Sample.transaction) (start Sample.transaction fun _ => [])
        Sample.acceptedRun = some s ∧
      ∃ hosts : List ℕ, hosts.Nodup ∧ hosts.length = 2 ∧ (∀ host ∈ hosts, host ∈ [10, 20, 30]) ∧
        ∀ later s', run (transition Sample.transaction) s later = some s' →
          Answered s' .ok ∧
          (∀ host ∈ hosts, ofTx "t" (s'.2 host) = Sample.transaction.documents) ∧
          ∀ host ∈ [10, 20, 30], host ∉ hosts → ofTx "t" (s'.2 host) = [] := by
  have hok : (run (transition Sample.transaction) (start Sample.transaction fun _ => [])
      Sample.acceptedRun).map (·.1.coord) = some (.done (some [0, 2]) .ok) := by decide
  obtain ⟨s, hs, hcoord⟩ := Option.map_eq_some_iff.mp hok
  exact ⟨s, hs, accepted_is_durable (by decide) (fun _ => rfl) hs ⟨some [0, 2], hcoord⟩⟩

end RsoVoting.TwoPhase
