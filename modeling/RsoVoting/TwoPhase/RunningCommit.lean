import RsoVoting.Lib.Runs
import RsoVoting.TwoPhase.ConnectionRules

namespace RsoVoting.TwoPhase

open RsoVoting.Runs

/-!
# A rollback of a commit that is still running

The agent starts the insert of a commit and the delete of a rollback one after the other and
waits for neither, so the delete can take effect while the insert is still storing.  This
file looks at one agent and its host's collection by themselves:

* `DbAgentActor.step` — a command reaches the agent, a started operation moves, or the agent
  stops; every step of a connection is one of these or leaves both alone
  (`agent_of_rule`);
* `commands` — the commands that an agent handles in a run;
* `DeletedLast` — the steps that store no document of a transaction after its delete;
* `rollback_undoes_iff` — after a vote, a commit and a rollback, and once both operations
  have taken effect, nothing of the transaction is left exactly if all steps were such.
-/

namespace DbAgentActor

/-! ### One agent by itself -/

/-- What happens to an agent. -/
inductive AgentAction where
  /-- The host's `TcpServer` creates it. -/
  | create
  /-- It handles a command. -/
  | receive (m : Command)
  /-- A started operation moves. -/
  | mongo (m : MongoAction)
  /-- It stops. -/
  | stop
deriving DecidableEq, Repr

/-- A step of an agent on the collection of its host. -/
def step (s : DbAgentActor × List Document) :
    AgentAction → Option (DbAgentActor × List Document)
  | .create => do
    guard (s.1.status = .absent)
    return ({ s.1 with status := .running }, s.2)
  | .receive m => do
    guard (s.1.status = .running)
    return ((s.1.receive m).1, s.2)
  | .mongo m => do
    let (a, votes, _) ← s.1.mongo s.2 m
    return (a, votes)
  | .stop => do
    guard (s.1.status = .running)
    return ({ s.1 with status := .stopped }, s.2)

/-- The commands that an agent handles in a run. -/
def commands (as : List AgentAction) : List Command :=
  as.filterMap fun
    | .receive m => some m
    | _          => none

/-- The started operations have taken effect: each insert has stored its documents or
    failed, and each delete has been applied. -/
def TakenEffect (a : DbAgentActor) : Prop :=
  (∀ op ∈ a.inserts, op.stored = op.docs.length ∨ op.completed ≠ none) ∧
    ∀ op ∈ a.deletes, op.applied = true

instance (a : DbAgentActor) : Decidable a.TakenEffect := inferInstanceAs (Decidable (_ ∧ _))

/-- The next document of the `k`-th insert. -/
def nextDocument (a : DbAgentActor) (k : ℕ) : Option Document :=
  a.inserts[k]?.bind fun op => op.docs[op.stored]?

/-- The ids that the started deletes delete by, and whether they have been applied. -/
def effects (a : DbAgentActor) : List (Option String × Bool) :=
  a.deletes.map fun op => (op.txId, op.applied)

/-- No document of `t` is stored once a delete of `t` has been applied. -/
def DeletedLast (t : String) (s : DbAgentActor × List Document) : AgentAction → Prop
  | .mongo (.storeNext k) =>
    (s.1.nextDocument k).any (·.txId = some (.string t)) → (some t, true) ∉ s.1.effects
  | _ => True

instance (t : String) (s : DbAgentActor × List Document) (x : AgentAction) :
    Decidable (DeletedLast t s x) := by
  unfold DeletedLast
  split <;> infer_instance

/-! ### The steps of a connection are steps of its agent -/

/-- Every step of a connection leaves the agent and the collection alone or is a step of
    the agent. -/
theorem agent_of_rule {txId : String} {documents : List Document} {c c' : Connection}
    {votes votes' : List Document} {a : Connection.ConnAction}
    (h : Connection.Rule txId documents c votes a c' votes') :
    (c'.agent = c.agent ∧ votes' = votes) ∨
      ∃ x, step (c.agent, votes) x = some (c'.agent, votes') := by
  cases h with
  | connected hb ha => exact .inr ⟨.create, by simp [step, ha]⟩
  | @receiveVote t ds rest hframe ha =>
    exact .inr ⟨.receive (.vote t ds), by simp [step, ha, receive]⟩
  | receiveCommit hframe ha hs => exact .inr ⟨.receive .commit, by simp [step, ha, receive, hs]⟩
  | receiveCommitThrows hframe ha hs =>
    exact .inr ⟨.receive .commit, by simp [step, ha, receive, hs]⟩
  | receiveRollback hframe ha => exact .inr ⟨.receive .rollback, by simp [step, ha, receive]⟩
  | peerClosed ha | stopAgent ha => exact .inr ⟨.stop, by simp [step, ha]⟩
  | @storeNext k op doc hop hdoc hrun =>
    exact .inr ⟨.mongo (.storeNext k), by simp [step, mongo, hop, hdoc, hrun]⟩
  | @insertCompletes k op ok hop hrun hok =>
    refine .inr ⟨.mongo (.insertCompletes k ok), ?_⟩
    cases ok <;> simp_all [step, mongo, onComplete]
  | @applyDelete k op hop hrun hap =>
    exact .inr ⟨.mongo (.applyDelete k), by simp [step, mongo, hop, hrun, hap]⟩
  | @deleteCompletes k op ok hop hrun hok =>
    refine .inr ⟨.mongo (.deleteCompletes k ok), ?_⟩
    cases ok <;> simp_all [step, mongo, onComplete]
  | requestRollback | commandFailed | receiveReply | timeout => exact .inl ⟨by simp, rfl⟩
  | _ => exact .inl ⟨rfl, rfl⟩

/-! ### What a step does to the rollback -/

/-- What a started operation does to the deletes and to the collection; the vote stays. -/
theorem mongo_cases {a a' : DbAgentActor} {votes votes' : List Document} {m : MongoAction}
    {replies : List Reply} (h : a.mongo votes m = some (a', votes', replies)) :
    (a'.txId = a.txId ∧ a'.documentsToSave = a.documentsToSave) ∧
    ((∃ k doc, m = .storeNext k ∧ a.nextDocument k = some doc ∧ a'.effects = a.effects ∧
      votes' = votes ++ [doc]) ∨
    (∃ k u, m = .applyDelete k ∧ a.effects[k]? = some (u, false) ∧
      a'.effects = a.effects.set k (u, true) ∧
      votes' = votes.filter fun d => !matchesTxId u d) ∨
    ((∀ k, m ≠ .storeNext k) ∧ a'.effects = a.effects ∧ votes' = votes)) := by
  cases m with
  | storeNext k =>
    simp only [mongo, Option.bind_eq_bind, Option.bind_eq_some_iff, Option.guard_eq_some'] at h
    obtain ⟨op, hop, doc, hdoc, _, -, h⟩ := h
    obtain ⟨rfl, rfl, -⟩ : _ = a' ∧ _ = votes' ∧ replies = [] := by simpa using h
    exact ⟨⟨rfl, rfl⟩, .inl ⟨k, doc, rfl, by simp [nextDocument, hop, hdoc], rfl, rfl⟩⟩
  | insertCompletes k ok =>
    simp only [mongo, Option.bind_eq_bind, Option.bind_eq_some_iff, Option.guard_eq_some',
      onComplete] at h
    obtain ⟨op, -, _, -, h⟩ := h
    obtain ⟨rfl, rfl, -⟩ : _ = a' ∧ _ = votes' ∧ _ = replies := by simpa using h
    exact ⟨⟨rfl, rfl⟩, .inr (.inr ⟨by simp, rfl, rfl⟩)⟩
  | applyDelete k =>
    simp only [mongo, Option.bind_eq_bind, Option.bind_eq_some_iff, Option.guard_eq_some'] at h
    obtain ⟨op, hop, _, ⟨-, hap⟩, h⟩ := h
    obtain ⟨rfl, rfl, -⟩ : _ = a' ∧ _ = votes' ∧ replies = [] := by simpa using h
    exact ⟨⟨rfl, rfl⟩, .inr (.inl ⟨k, op.txId, rfl, by simp [effects, hop, hap],
      by simp [effects, List.map_set], rfl⟩)⟩
  | deleteCompletes k ok =>
    simp only [mongo, Option.bind_eq_bind, Option.bind_eq_some_iff, Option.guard_eq_some',
      onComplete] at h
    obtain ⟨op, hop, _, -, h⟩ := h
    obtain ⟨rfl, rfl, -⟩ : _ = a' ∧ _ = votes' ∧ _ = replies := by simpa using h
    -- completing a delete changes neither its id nor its effect
    have hsame : a.effects.set k (op.txId, op.applied) = a.effects := by
      obtain ⟨hk, rfl⟩ := List.getElem?_eq_some_iff.mp hop
      simp [effects, ← List.map_set]
    exact ⟨⟨rfl, rfl⟩, .inr (.inr ⟨by simp, by simpa [effects, List.map_set] using hsame, rfl⟩)⟩

section Step

variable {t : String} {docs : List Document} {s s' : DbAgentActor × List Document}
  {x : AgentAction}

/-- No document of `t` is left if a delete of `t` has been applied. -/
def Clean (t : String) (s : DbAgentActor × List Document) : Prop :=
  (some t, true) ∈ s.1.effects → ofTx t s.2 = []

/-- The agent has started no delete, or one of `t`. -/
def RolledBackOnce (t : String) (a : DbAgentActor) : Prop :=
  a.effects = [] ∨ ∃ applied, a.effects = [(some t, applied)]

/-- A step keeps the collection clean exactly if it stores nothing of `t` after the delete. -/
theorem clean_step (hone : s.1.RolledBackOnce t) (h : step s x = some s') :
    Clean t s' ↔ Clean t s ∧ DeletedLast t s x := by
  cases x with
  | create | stop =>
    simp only [step, Option.bind_eq_bind, Option.bind_eq_some_iff, Option.guard_eq_some'] at h
    obtain ⟨_, -, h⟩ := h
    obtain rfl := Option.some.inj h
    simp [Clean, DeletedLast, effects]
  | receive m =>
    simp only [step, Option.bind_eq_bind, Option.bind_eq_some_iff, Option.guard_eq_some'] at h
    obtain ⟨_, -, h⟩ := h
    obtain rfl := Option.some.inj h
    -- a rollback starts a delete that has not been applied
    cases m with
    | vote | rollback => simp [Clean, DeletedLast, effects, receive]
    | commit =>
      cases hsaved : s.1.documentsToSave <;>
        simp [Clean, DeletedLast, effects, receive, hsaved, restart]
  | mongo m =>
    simp only [step, Option.bind_eq_bind, Option.bind_eq_some_iff] at h
    obtain ⟨⟨a', votes', replies⟩, hm, h⟩ := h
    obtain rfl := Option.some.inj h
    rcases (mongo_cases hm).2 with ⟨k, doc, rfl, hdoc, heff, rfl⟩ | ⟨k, u, rfl, hu, heff, rfl⟩ |
      ⟨hne, heff, rfl⟩
    · by_cases htag : doc.txId = some (.string t)
      · -- a document of `t` may only come while no delete of `t` has been applied
        simp only [Clean, DeletedLast, heff, hdoc, ofTx_concat_self htag, Option.any_some, htag,
          decide_true, true_implies, List.append_eq_nil_iff, List.cons_ne_nil, and_false]
        exact ⟨fun hnot => ⟨fun hmem => (hnot hmem).elim, hnot⟩, fun h => h.2⟩
      · have hkeep : ofTx t (s.2 ++ [doc]) = ofTx t s.2 := by simp [ofTx, htag]
        simp [Clean, DeletedLast, heff, hdoc, htag, hkeep]
    · -- the one delete takes effect
      obtain ⟨applied, hlist⟩ : ∃ applied, s.1.effects = [(some t, applied)] := by
        refine hone.resolve_left fun hnil => ?_
        simp [hnil] at hu
      have hk : k = 0 := by
        by_contra hk
        rw [hlist, List.getElem?_eq_none (by simp; omega)] at hu
        simp at hu
      subst hk
      obtain ⟨rfl, rfl⟩ : some t = u ∧ applied = false := by simpa [hlist] using hu
      simp [Clean, DeletedLast, hlist, ofTx_delete_self]
    · have hlast : DeletedLast t s (.mongo m) := by
        cases m with
        | storeNext k => exact absurd rfl (hne k)
        | _ => trivial
      simp [Clean, heff, hlast]

/-! ### A vote, a commit and a rollback -/

/-- The commands that are left of a vote, a commit and a rollback of `t`, and what the agent
    has done so far. -/
inductive Handling (t : String) (docs : List Document) : List Command → DbAgentActor → Prop
  | vote {a} (heff : a.effects = []) : Handling t docs [.vote t docs, .commit, .rollback] a
  | commit {a} (heff : a.effects = []) (htx : a.txId = some t)
      (hdocs : a.documentsToSave = some docs) : Handling t docs [.commit, .rollback] a
  | rollback {a} (heff : a.effects = []) (htx : a.txId = some t) : Handling t docs [.rollback] a
  | done {a applied} (heff : a.effects = [(some t, applied)]) : Handling t docs [] a

theorem Handling.rolledBackOnce {ms : List Command} {a : DbAgentActor}
    (h : Handling t docs ms a) : a.RolledBackOnce t := by
  cases h with
  | vote heff | commit heff | rollback heff => exact .inl heff
  | done heff => exact .inr ⟨_, heff⟩

/-- What does not handle a command keeps the vote and starts no delete. -/
theorem Handling.congr {ms : List Command} {a a' : DbAgentActor} (h : Handling t docs ms a)
    (hvote : a'.txId = a.txId ∧ a'.documentsToSave = a.documentsToSave)
    (heff : a.effects = [] → a'.effects = [])
    (hone : ∀ applied, a.effects = [(some t, applied)] → ∃ b, a'.effects = [(some t, b)]) :
    Handling t docs ms a' := by
  cases h with
  | vote h => exact .vote (heff h)
  | commit h htx hdocs => exact .commit (heff h) (hvote.1.trans htx) (hvote.2.trans hdocs)
  | rollback h htx => exact .rollback (heff h) (hvote.1.trans htx)
  | done h =>
    obtain ⟨b, hb⟩ := hone _ h
    exact .done hb

/-- **Step lemma.**  A step goes on to the commands that are left. -/
theorem Handling.step {as : List AgentAction} (hh : Handling t docs (commands (x :: as)) s.1)
    (h : step s x = some s') : Handling t docs (commands as) s'.1 := by
  cases x with
  | create | stop =>
    simp only [DbAgentActor.step, Option.bind_eq_bind, Option.bind_eq_some_iff] at h
    obtain ⟨_, -, h⟩ := h
    obtain rfl := Option.some.inj h
    exact hh.congr ⟨rfl, rfl⟩ id fun applied h => ⟨applied, h⟩
  | receive m =>
    simp only [DbAgentActor.step, Option.bind_eq_bind, Option.bind_eq_some_iff] at h
    obtain ⟨_, -, h⟩ := h
    obtain rfl := Option.some.inj h
    have hms : commands (.receive m :: as) = m :: commands as := rfl
    rw [hms] at hh
    generalize hrest : commands as = rest at hh
    cases hh with
    | vote heff => exact .commit heff rfl rfl
    | commit heff htx hdocs =>
      have hnew : (s.1.receive .commit).1 =
          { s.1 with inserts := s.1.inserts ++ [{ docs := docs }] } := by simp [receive, hdocs]
      exact .rollback (by simpa [hnew, effects] using heff) (by simpa [hnew] using htx)
    | rollback heff htx =>
      have hnil : s.1.deletes = [] := by simpa [effects] using heff
      have heff' : (s.1.receive .rollback).1.effects = [(some t, false)] := by
        simp [receive, effects, hnil, htx]
      exact .done heff'
  | mongo m =>
    simp only [DbAgentActor.step, Option.bind_eq_bind, Option.bind_eq_some_iff] at h
    obtain ⟨⟨a', votes', replies⟩, hm, h⟩ := h
    obtain rfl := Option.some.inj h
    obtain ⟨hvote, hcases⟩ := mongo_cases hm
    refine hh.congr hvote (fun hnil => ?_) fun applied hlist => ?_
    · rcases hcases with ⟨k, doc, -, -, heff, -⟩ | ⟨k, u, -, -, heff, -⟩ | ⟨-, heff, -⟩
      · exact heff.trans hnil
      · simp [heff, hnil]
      · exact heff.trans hnil
    · rcases hcases with ⟨k, doc, -, -, heff, -⟩ | ⟨k, u, -, hu, heff, -⟩ | ⟨-, heff, -⟩
      · exact ⟨applied, heff.trans hlist⟩
      · -- only the one delete of `t` can be applied
        cases k with
        | zero =>
          obtain ⟨rfl, -⟩ : some t = u ∧ applied = false := by simpa [hlist] using hu
          exact ⟨true, by simp [heff, hlist]⟩
        | succ k => simp [hlist] at hu
      · exact ⟨applied, heff.trans hlist⟩

/-- **Run lemma.**  At the end of a run that handles the commands, nothing of `t` is left
    exactly if the collection was clean and nothing is stored after the delete. -/
theorem clean_of_run {as : List AgentAction} (hh : Handling t docs (commands as) s.1)
    (hrun : run step s as = some s') (hdone : ∀ op ∈ s'.1.deletes, op.applied = true) :
    ofTx t s'.2 = [] ↔ Clean t s ∧ Along step (DeletedLast t) s as := by
  induction as generalizing s with
  | nil =>
    obtain rfl : s = s' := by simpa using hrun
    -- the delete is there and has been applied
    obtain ⟨applied, heff⟩ : ∃ applied, s.1.effects = [(some t, applied)] := by
      cases hh with
      | done heff => exact ⟨_, heff⟩
    have happlied : applied = true := by
      have hmem : (some t, applied) ∈ s.1.effects := by simp [heff]
      obtain ⟨op, hop, hpair⟩ := List.mem_map.mp hmem
      obtain ⟨-, rfl⟩ := Prod.mk.inj hpair
      exact hdone op hop
    simp [Clean, Along, heff, happlied]
  | cons x as ih =>
    obtain ⟨s₁, hs₁, hrest⟩ := run_cons_eq_some.mp hrun
    rw [ih (hh.step hs₁) hrest, clean_step hh.rolledBackOnce hs₁]
    simp [Along, hs₁, and_assoc]

end Step

/-- **What a rollback of a running commit leaves.**  An agent that has started no delete
    yet handles a vote for `t`, a commit and a rollback, in any order with the steps of its
    operations and whether or not its insert has completed when the rollback comes.  Once
    both operations have taken effect, the collection holds no document of `t` exactly if
    none was stored after the delete had been applied. -/
theorem rollback_undoes_iff {t : String} {docs : List Document} {a : DbAgentActor}
    {votes : List Document} (hnew : a.deletes = []) {as : List AgentAction}
    {s : DbAgentActor × List Document}
    (hcommands : commands as = [.vote t docs, .commit, .rollback])
    (hrun : run step (a, votes) as = some s) (heffect : s.1.TakenEffect) :
    ofTx t s.2 = [] ↔ Along step (DeletedLast t) (a, votes) as := by
  have hnil : a.effects = [] := by simp [effects, hnew]
  have hstart : Handling t docs (commands as) a := hcommands ▸ .vote hnil
  rw [clean_of_run hstart hrun heffect.2]
  simp [Clean, hnil]

/-! ### A delete before the insert, and one after it -/

namespace Sample

/-- A vote for one document, a commit and a rollback. -/
def told : List AgentAction :=
  [.create, .receive (.vote "t" [{ txId := some (.string "t") }]), .receive .commit]

/-- The delete takes effect before the insert does. -/
def deletedFirst : List AgentAction :=
  told ++ [.receive .rollback, .mongo (.applyDelete 0), .mongo (.storeNext 0),
    .mongo (.insertCompletes 0 true), .mongo (.deleteCompletes 0 true), .stop]

/-- The insert has taken effect, but has not completed, when the rollback comes. -/
def storedFirst : List AgentAction :=
  told ++ [.mongo (.storeNext 0), .receive .rollback, .mongo (.applyDelete 0),
    .mongo (.insertCompletes 0 true), .mongo (.deleteCompletes 0 true), .stop]

end Sample

/-- The rollback comes while no insert has completed. -/
def StillRunning (s : DbAgentActor × List Document) : AgentAction → Prop
  | .receive .rollback => ∀ op ∈ s.1.inserts, op.completed = none
  | _                  => True

instance (s : DbAgentActor × List Document) (x : AgentAction) : Decidable (StillRunning s x) := by
  unfold StillRunning
  split <;> infer_instance

/-- A rollback does not undo every commit that is still running. -/
theorem running_commit_survives :
    ¬∀ (t : String) (docs votes : List Document) (as : List AgentAction)
      (s : DbAgentActor × List Document),
      commands as = [.vote t docs, .commit, .rollback] →
      Along step StillRunning ({}, votes) as → run step ({}, votes) as = some s →
      s.1.TakenEffect → ofTx t s.2 = [] := by
  intro h
  have hend : (run step ({}, []) Sample.deletedFirst).map (fun s =>
      (decide s.1.TakenEffect, s.2)) = some (true, [{ txId := some (.string "t") }]) := by decide
  obtain ⟨s, hs, hresult⟩ := Option.map_eq_some_iff.mp hend
  simp only [Prod.mk.injEq, decide_eq_true_eq] at hresult
  obtain ⟨heffect, hvotes⟩ := hresult
  have hnil := h "t" _ [] Sample.deletedFirst s rfl (by decide) hs heffect
  simp [hvotes, ofTx] at hnil

/-- The second sample run leaves nothing. -/
theorem rollback_undoes_sample :
    ∃ s, run step ({}, []) Sample.storedFirst = some s ∧ s.1.TakenEffect ∧ ofTx "t" s.2 = [] := by
  have hend : (run step ({}, []) Sample.storedFirst).map (fun s => decide s.1.TakenEffect) =
      some true := by decide
  obtain ⟨s, hs, heffect⟩ := Option.map_eq_some_iff.mp hend
  rw [decide_eq_true_eq] at heffect
  exact ⟨s, hs, heffect, (rollback_undoes_iff rfl rfl hs heffect).mpr (by decide)⟩

end DbAgentActor

end RsoVoting.TwoPhase
