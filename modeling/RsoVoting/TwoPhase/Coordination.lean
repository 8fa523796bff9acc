import RsoVoting.TwoPhase.TwoPhaseCommitActor
import RsoVoting.TwoPhase.ConnectionInvariant
import Mathlib.Data.List.Nodup

namespace RsoVoting.TwoPhase

open RsoVoting.Runs RsoVoting.Interleave

/-!
# The invariant of a transaction

`ConnectionInvariant` says what holds of one connection; this file adds what the
coordinator knows about all of them and shows that both survive every step.

* `Tx.Advance` / `advance_of_proceed` — the coordinator's steps, one rule per way its
  future can run to the next `Await`;
* `Elected` — a complete selection: `REDUNDANCY` distinct hosts that all voted ok;
* `Coordinated` — what holds of the promises at each place of the future;
* `Invariant` — `Coordinated`, and every connection `Sound`;
* `invariant_of_run` — the run lemma: it holds after every run, over any collections.
-/

variable {H : Type}

/-! ### The coordinator's steps -/

/-- The ways the coordinator's future can run on, with their guards. -/
inductive Tx.Advance (minDbsCount : ℕ) : Tx → Tx → Prop
  | notEnough {tx potential commiting} (hcoord : tx.coord = .selecting potential commiting)
      (hlt : commiting.length < minDbsCount)
      (hfew : potential.length < minDbsCount - commiting.length) :
      Advance minDbsCount tx { tx with coord := .done none .error }
  | startRound {tx potential commiting shuffled}
      (hcoord : tx.coord = .selecting potential commiting)
      (hlt : commiting.length < minDbsCount)
      (hmany : minDbsCount - commiting.length ≤ potential.length)
      (hperm : shuffled.Perm potential) :
      Advance minDbsCount tx
        { coord := .voting
            (potentialAfter potential (drawHosts shuffled (minDbsCount - commiting.length)))
            commiting (drawHosts shuffled (minDbsCount - commiting.length)),
          conn := onEach tx.conn (drawHosts shuffled (minDbsCount - commiting.length))
            (·.sendAsk .vote) }
  | endRound {tx potential commiting dbHosts}
      (hcoord : tx.coord = .voting potential commiting dbHosts)
      (hans : allAnswered tx.conn dbHosts .vote = true) :
      Advance minDbsCount tx
        { tx with coord := .selecting potential (commiting ++ votedOk tx.conn dbHosts) }
  | sendCommit {tx potential commiting}
      (hcoord : tx.coord = .selecting potential commiting)
      (hge : minDbsCount ≤ commiting.length) :
      Advance minDbsCount tx
        { coord := .committing commiting, conn := onEach tx.conn commiting (·.sendAsk .commit) }
  | succeed {tx actors} (hcoord : tx.coord = .committing actors)
      (hack : ∀ i ∈ actors, (tx.conn i).commitAsk = .answered .ack) :
      Advance minDbsCount tx
        { coord := .done (some actors) .ok, conn := onEach tx.conn actors (·.tell .poisonPill) }
  | startRollback {tx actors} (hcoord : tx.coord = .committing actors)
      (hans : allAnswered tx.conn actors .commit = true)
      (hack : allAck tx.conn actors .commit = false) :
      Advance minDbsCount tx
        { coord := .rollingBack actors, conn := onEach tx.conn actors (·.sendAsk .rollback) }
  | finishRollback {tx actors} (hcoord : tx.coord = .rollingBack actors)
      (hans : allAnswered tx.conn actors .rollback = true) :
      Advance minDbsCount tx
        { coord := .done (some actors) .error,
          conn := onEach tx.conn actors (·.tell .poisonPill) }

/-- **Inversion.**  Every step of the coordinator is one of the rules. -/
theorem Tx.advance_of_proceed {minDbsCount : ℕ} {tx tx' : Tx} {shuffled : List ℕ}
    (h : tx.proceed minDbsCount shuffled = some tx') : tx.Advance minDbsCount tx' := by
  unfold proceed at h
  split at h
  case h_1 potential commiting hcoord =>
    split at h
    case isTrue hlt =>
      dsimp only at h
      split at h
      case isTrue hfew =>
        obtain rfl := Option.some.inj h
        exact .notEnough hcoord hlt hfew
      case isFalse hmany =>
        split at h
        case isTrue hperm =>
          obtain rfl := Option.some.inj h
          exact .startRound hcoord hlt (Nat.le_of_not_lt hmany) hperm
        case isFalse => simp at h
    case isFalse hge =>
      obtain rfl := Option.some.inj h
      exact .sendCommit hcoord (Nat.le_of_not_lt hge)
  case h_2 potential commiting dbHosts hcoord =>
    split at h
    case isTrue hans =>
      obtain rfl := Option.some.inj h
      exact .endRound hcoord hans
    case isFalse => simp at h
  case h_3 actors hcoord =>
    split at h
    case isTrue hans =>
      split at h
      case isTrue hack =>
        obtain rfl := Option.some.inj h
        refine .succeed hcoord fun i hi => ?_
        simpa [Connection.ask] using of_decide_eq_true (List.all_eq_true.mp hack i hi)
      case isFalse hack =>
        obtain rfl := Option.some.inj h
        exact .startRollback hcoord hans ((Bool.not_eq_true _).mp hack)
    case isFalse => simp at h
  case h_4 actors hcoord =>
    split at h
    case isTrue hans =>
      obtain rfl := Option.some.inj h
      exact .finishRollback hcoord hans
    case isFalse => simp at h
  case h_5 => simp at h

/-- **Inversion** for the steps of the coordinator inside its transaction. -/
theorem Tx.advance_of_step [DecidableEq H] {cfg : Transaction H} {tx tx' : Tx}
    {votes votes' : H → List Document} {shuffled : List ℕ}
    (h : Tx.step cfg tx votes (.coordinator shuffled) = some (tx', votes')) :
    tx.Advance cfg.minDbsCount tx' ∧ votes' = votes := by
  simp only [Tx.step, Option.map_eq_some_iff, Prod.mk.injEq] at h
  obtain ⟨_, hproceed, rfl, rfl⟩ := h
  exact ⟨Tx.advance_of_proceed hproceed, rfl⟩

/-- **Inversion** for the steps of a connection inside its transaction. -/
theorem Tx.connection_of_step [DecidableEq H] {cfg : Transaction H} {tx tx' : Tx}
    {votes votes' : H → List Document} {i : ℕ} {a : Connection.ConnAction}
    (h : Tx.step cfg tx votes (.connection i a) = some (tx', votes')) :
    ∃ host c vs, cfg.dbHostsConf[i]? = some host ∧ permits tx.coord a = true ∧
      Connection.Rule cfg.txId cfg.documents (tx.conn i) (votes host) a c vs ∧
      tx' = { tx with conn := Function.update tx.conn i c } ∧
      votes' = Function.update votes host vs := by
  simp only [Tx.step, Option.bind_eq_bind, Option.bind_eq_some_iff,
    Option.guard_eq_some'] at h
  obtain ⟨host, hhost, _, hperm, ⟨c, vs⟩, hc, h⟩ := h
  obtain ⟨rfl, rfl⟩ : _ = tx' ∧ _ = votes' := by simpa using h
  exact ⟨host, c, vs, hhost, hperm, Connection.rule_of_step hc, rfl, rfl⟩

/-! ### What the coordinator knows -/

section Knowledge

variable (conn : ℕ → Connection)

/-- Nothing has been sent to these hosts yet. -/
def Untouched (hosts : List ℕ) : Prop := ∀ i ∈ hosts, (conn i).voteAsk = .unsent

/-- These hosts have answered the vote ask with `VoteOk`. -/
def VotedOk (hosts : List ℕ) : Prop := ∀ i ∈ hosts, (conn i).voteAsk = .answered .voteOk

/-- Only these hosts have been sent the ask of phase `p`. -/
def AskedOnly (p : Phase) (hosts : List ℕ) : Prop := ∀ i, i ∉ hosts → (conn i).ask p = .unsent

/-- A complete selection: as many distinct hosts of the list as the redundancy asks for,
    all of which voted ok. -/
structure Elected (cfg : Transaction H) (actors : List ℕ) : Prop where
  nodup : actors.Nodup
  valid : ∀ i ∈ actors, i < cfg.dbHostsConf.length
  count : actors.length = cfg.minDbsCount
  votedOk : VotedOk conn actors

end Knowledge

/-- What holds of the promises, place by place of the coordinator's future. -/
def Coordinated (cfg : Transaction H) (tx : Tx) : Prop :=
  match tx.coord with
  | .selecting potential commiting =>
    (potential ++ commiting).Nodup ∧ (∀ i ∈ potential ++ commiting, i < cfg.dbHostsConf.length) ∧
    commiting.length ≤ cfg.minDbsCount ∧ Untouched tx.conn potential ∧
    VotedOk tx.conn commiting ∧ AskedOnly tx.conn .commit [] ∧ AskedOnly tx.conn .rollback []
  | .voting potential commiting dbHosts =>
    (potential ++ (commiting ++ dbHosts)).Nodup ∧
    (∀ i ∈ potential ++ (commiting ++ dbHosts), i < cfg.dbHostsConf.length) ∧
    (commiting ++ dbHosts).length = cfg.minDbsCount ∧ Untouched tx.conn potential ∧
    VotedOk tx.conn commiting ∧ AskedOnly tx.conn .commit [] ∧ AskedOnly tx.conn .rollback []
  | .committing actors =>
    Elected tx.conn cfg actors ∧ AskedOnly tx.conn .commit actors ∧
    AskedOnly tx.conn .rollback []
  | .rollingBack actors | .done (some actors) .error =>
    Elected tx.conn cfg actors ∧ AskedOnly tx.conn .commit actors ∧
    AskedOnly tx.conn .rollback actors
  | .done (some actors) .ok =>
    Elected tx.conn cfg actors ∧ AskedOnly tx.conn .commit actors ∧
    AskedOnly tx.conn .rollback [] ∧ ∀ i ∈ actors, (tx.conn i).commitAsk = .answered .ack
  | .done none .error => AskedOnly tx.conn .commit [] ∧ AskedOnly tx.conn .rollback []
  | .done none .ok => False

/-! ### A step of a connection keeps it -/

/-- The promises of all connections have only moved forward. -/
def AsksMove (conn conn' : ℕ → Connection) : Prop :=
  ∀ i p, ((conn' i).ask p = .unsent ↔ (conn i).ask p = .unsent) ∧
    ∀ m, (conn i).ask p = .answered m → (conn' i).ask p = .answered m

theorem asksMove_update {txId : String} {documents : List Document} {conn : ℕ → Connection}
    {i : ℕ} {c : Connection} {votes votes' : List Document} {a : Connection.ConnAction}
    (h : Connection.Rule txId documents (conn i) votes a c votes') :
    AsksMove conn (Function.update conn i c) := by
  intro j p
  by_cases hj : j = i
  · subst hj
    rw [Function.update_self]
    exact ⟨h.ask_unsent_iff p, fun m hm => h.ask_answered hm⟩
  · rw [Function.update_of_ne hj]
    exact ⟨Iff.rfl, fun m hm => hm⟩

section AsksMove

variable {conn conn' : ℕ → Connection} {hosts : List ℕ}

theorem AsksMove.untouched (h : AsksMove conn conn') (hu : Untouched conn hosts) :
    Untouched conn' hosts :=
  fun i hi => (h i .vote).1.mpr (hu i hi)

theorem AsksMove.votedOk (h : AsksMove conn conn') (hv : VotedOk conn hosts) :
    VotedOk conn' hosts :=
  fun i hi => (h i .vote).2 _ (hv i hi)

theorem AsksMove.askedOnly (h : AsksMove conn conn') {p : Phase}
    (ho : AskedOnly conn p hosts) : AskedOnly conn' p hosts :=
  fun i hi => (h i p).1.mpr (ho i hi)

theorem AsksMove.elected {cfg : Transaction H} (h : AsksMove conn conn')
    (he : Elected conn cfg hosts) : Elected conn' cfg hosts :=
  { he with votedOk := h.votedOk he.votedOk }

end AsksMove

theorem Coordinated.of_asksMove {cfg : Transaction H} {tx : Tx} {conn' : ℕ → Connection}
    (hc : Coordinated cfg tx) (h : AsksMove tx.conn conn') :
    Coordinated cfg { tx with conn := conn' } := by
  unfold Coordinated at hc ⊢
  dsimp only at hc ⊢
  split at hc
  case h_1 =>
    obtain ⟨hnd, hval, hle, hu, hv, hco, hro⟩ := hc
    exact ⟨hnd, hval, hle, h.untouched hu, h.votedOk hv, h.askedOnly hco, h.askedOnly hro⟩
  case h_2 =>
    obtain ⟨hnd, hval, hle, hu, hv, hco, hro⟩ := hc
    exact ⟨hnd, hval, hle, h.untouched hu, h.votedOk hv, h.askedOnly hco, h.askedOnly hro⟩
  case h_3 =>
    obtain ⟨he, hco, hro⟩ := hc
    exact ⟨h.elected he, h.askedOnly hco, h.askedOnly hro⟩
  case h_4 =>
    obtain ⟨he, hco, hro⟩ := hc
    exact ⟨h.elected he, h.askedOnly hco, h.askedOnly hro⟩
  case h_5 =>
    obtain ⟨he, hco, hro⟩ := hc
    exact ⟨h.elected he, h.askedOnly hco, h.askedOnly hro⟩
  case h_6 =>
    obtain ⟨he, hco, hro, hack⟩ := hc
    exact ⟨h.elected he, h.askedOnly hco, h.askedOnly hro,
      fun i hi => (h i .commit).2 _ (hack i hi)⟩
  case h_7 =>
    obtain ⟨hco, hro⟩ := hc
    exact ⟨h.askedOnly hco, h.askedOnly hro⟩
  case h_8 => exact hc

/-! ### A step of the coordinator keeps it -/

section OnEach

variable {conn : ℕ → Connection} {hosts : List ℕ} {f : Connection → Connection} {i : ℕ}

theorem onEach_of_mem (hi : i ∈ hosts) : Tx.onEach conn hosts f i = f (conn i) := if_pos hi

theorem onEach_of_notMem (hi : i ∉ hosts) : Tx.onEach conn hosts f i = conn i := if_neg hi

/-- Asking a phase leaves the promises of the others. -/
theorem ask_onEach_sendAsk_of_ne {p q : Phase} (hpq : q ≠ p) (i : ℕ) :
    (Tx.onEach conn hosts (·.sendAsk p) i).ask q = (conn i).ask q := by
  by_cases hi : i ∈ hosts
  · rw [onEach_of_mem hi, Connection.ask_sendAsk, if_neg hpq]
  · rw [onEach_of_notMem hi]

/-- A message without a promise leaves all of them. -/
theorem ask_onEach_tell {q : Phase} {r : Request} (i : ℕ) :
    (Tx.onEach conn hosts (·.tell r) i).ask q = (conn i).ask q := by
  by_cases hi : i ∈ hosts
  · rw [onEach_of_mem hi, Connection.ask_tell]
  · rw [onEach_of_notMem hi]

theorem asksMove_onEach_tell {r : Request} :
    AsksMove conn (Tx.onEach conn hosts (·.tell r)) := by
  intro i p
  rw [ask_onEach_tell]
  exact ⟨Iff.rfl, fun m hm => hm⟩

/-- After asking phase `p` of `hosts` nobody else has been asked. -/
theorem askedOnly_onEach_sendAsk {p : Phase} (h : AskedOnly conn p []) :
    AskedOnly (Tx.onEach conn hosts (·.sendAsk p)) p hosts := by
  intro i hi
  rw [onEach_of_notMem hi]
  exact h i (by simp)

theorem AskedOnly.onEach_sendAsk {p q : Phase} {l : List ℕ} (h : AskedOnly conn q l)
    (hpq : q ≠ p) : AskedOnly (Tx.onEach conn hosts (·.sendAsk p)) q l := by
  intro i hi
  rw [ask_onEach_sendAsk_of_ne hpq]
  exact h i hi

theorem Elected.onEach_sendAsk {cfg : Transaction H} {p : Phase} {l : List ℕ}
    (h : Elected conn cfg l) (hp : Phase.vote ≠ p) :
    Elected (Tx.onEach conn hosts (·.sendAsk p)) cfg l :=
  { h with votedOk := fun i hi => (ask_onEach_sendAsk_of_ne hp i).trans (h.votedOk i hi) }

end OnEach

/-! #### Drawing the hosts of a round -/

section Draw

variable {shuffled potential : List ℕ} {left : ℕ}

theorem drawHosts_subset (hperm : shuffled.Perm potential) :
    ∀ i ∈ drawHosts shuffled left, i ∈ potential :=
  fun _ hi => hperm.subset (List.mem_of_mem_take hi)

theorem length_drawHosts (hperm : shuffled.Perm potential) (h : left ≤ potential.length) :
    (drawHosts shuffled left).length = left := by
  rw [drawHosts, List.length_take, hperm.length_eq]
  omega

theorem mem_potentialAfter {drawn : List ℕ} {i : ℕ} :
    i ∈ potentialAfter potential drawn ↔ i ∈ potential ∧ i ∉ drawn := by
  simp [potentialAfter]

/-- A round moves hosts from the candidates to the asked ones; none is repeated. -/
theorem nodup_round {commiting : List ℕ} (hnd : (potential ++ commiting).Nodup)
    (hperm : shuffled.Perm potential) :
    (potentialAfter potential (drawHosts shuffled left) ++
      (commiting ++ drawHosts shuffled left)).Nodup := by
  obtain ⟨hpot, hcom, hdisj⟩ := List.nodup_append.mp hnd
  -- what is drawn comes from the candidates, which are distinct
  have hdraw : (drawHosts shuffled left).Nodup :=
    (hperm.nodup_iff.mpr hpot).sublist (List.take_sublist _ _)
  refine List.nodup_append.mpr ⟨hpot.filter _, ?_, ?_⟩
  · refine List.nodup_append.mpr ⟨hcom, hdraw, ?_⟩
    rintro a ha b hb rfl
    exact hdisj a (drawHosts_subset hperm a hb) a ha rfl
  · rintro a ha b hb rfl
    obtain ⟨hap, hadrawn⟩ := mem_potentialAfter.mp ha
    rcases List.mem_append.mp hb with hb | hb
    · exact hdisj a hap a hb rfl
    · exact hadrawn hb

/-- A round takes its hosts out of the candidates. -/
theorem countP_round (hnd : potential.Nodup) (hperm : shuffled.Perm potential) (left : ℕ)
    (good : ℕ → Bool) :
    potential.countP good = (drawHosts shuffled left).countP good +
      (potentialAfter potential (drawHosts shuffled left)).countP good := by
  have hsplit := List.take_append_drop left shuffled
  have hndS : (shuffled.take left ++ shuffled.drop left).Nodup := by
    rw [hsplit]
    exact hperm.nodup_iff.mpr hnd
  -- the candidates that are left are the tail of the shuffle, in another order
  have hrest : (potentialAfter potential (drawHosts shuffled left)).Perm
      (shuffled.drop left) := by
    have hfilter : shuffled.filter (· ∉ shuffled.take left) = shuffled.drop left := by
      conv_lhs => arg 2; rw [← hsplit]
      rw [List.filter_append, List.filter_eq_nil_iff.mpr (by simp), List.nil_append,
        List.filter_eq_self]
      intro i hi
      have := (List.nodup_append.mp hndS).2.2
      simpa using fun hmem => this i hmem i hi rfl
    have := (hperm.symm.filter (· ∉ shuffled.take left))
    rwa [hfilter] at this
  rw [hrest.countP_eq, drawHosts, ← List.countP_append, hsplit, hperm.countP_eq]

end Draw

theorem votedOk_sublist (conn : ℕ → Connection) (hosts : List ℕ) :
    (Tx.votedOk conn hosts).Sublist hosts := List.filter_sublist

/-- **Step lemma of the coordinator.** -/
theorem Coordinated.advance {cfg : Transaction H} {tx tx' : Tx} (hc : Coordinated cfg tx)
    (h : tx.Advance cfg.minDbsCount tx') : Coordinated cfg tx' := by
  cases h with
  | notEnough hcoord =>
    rw [Coordinated, hcoord] at hc
    obtain ⟨-, -, -, -, -, hco, hro⟩ := hc
    exact ⟨hco, hro⟩
  | @startRound potential commiting shuffled hcoord hlt hmany hperm =>
    rw [Coordinated, hcoord] at hc
    obtain ⟨hnd, hval, -, hu, hv, hco, hro⟩ := hc
    have hdrawn : ∀ i ∈ drawHosts shuffled (cfg.minDbsCount - commiting.length),
        i ∈ potential := drawHosts_subset hperm
    -- candidates and asked hosts are apart, so asking touches neither the other candidates
    -- nor the hosts selected before
    refine ⟨nodup_round hnd hperm, ?_, ?_, ?_, ?_, hco.onEach_sendAsk (by decide),
      hro.onEach_sendAsk (by decide)⟩
    · intro i hi
      refine hval i (List.mem_append.mpr ?_)
      simp only [List.mem_append, mem_potentialAfter] at hi
      rcases hi with ⟨hi, -⟩ | hi | hi
      · exact .inl hi
      · exact .inr hi
      · exact .inl (hdrawn i hi)
    · rw [List.length_append, length_drawHosts hperm hmany]
      omega
    · intro i hi
      obtain ⟨hip, hid⟩ := mem_potentialAfter.mp hi
      dsimp only
      rw [onEach_of_notMem hid]
      exact hu i hip
    · intro i hi
      have hid : i ∉ drawHosts shuffled (cfg.minDbsCount - commiting.length) := fun hmem =>
        (List.nodup_append.mp hnd).2.2 i (hdrawn i hmem) i hi rfl
      dsimp only
      rw [onEach_of_notMem hid]
      exact hv i hi
  | @endRound potential commiting dbHosts hcoord =>
    rw [Coordinated, hcoord] at hc
    obtain ⟨hnd, hval, hlen, hu, hv, hco, hro⟩ := hc
    -- the selection grows by those of the asked hosts that voted ok
    have hsub : (commiting ++ Tx.votedOk tx.conn dbHosts).Sublist (commiting ++ dbHosts) :=
      (List.Sublist.refl _).append (votedOk_sublist _ _)
    have hsub' := (List.Sublist.refl potential).append hsub
    refine ⟨hnd.sublist hsub', fun i hi => hval i (hsub'.subset hi), ?_, hu, ?_, hco, hro⟩
    · exact hlen ▸ hsub.length_le
    · intro i hi
      rcases List.mem_append.mp hi with hi | hi
      · exact hv i hi
      · exact of_decide_eq_true (List.mem_filter.mp hi).2
  | @sendCommit potential commiting hcoord hge =>
    rw [Coordinated, hcoord] at hc
    obtain ⟨hnd, hval, hle, hu, hv, hco, hro⟩ := hc
    -- at most and at least as many as the redundancy asks for
    have he : Elected tx.conn cfg commiting :=
      ⟨(List.nodup_append.mp hnd).2.1, fun i hi => hval i (List.mem_append_right _ hi),
        Nat.le_antisymm hle hge, hv⟩
    exact ⟨he.onEach_sendAsk (by decide), askedOnly_onEach_sendAsk hco,
      hro.onEach_sendAsk (by decide)⟩
  | @succeed actors hcoord hack =>
    rw [Coordinated, hcoord] at hc
    obtain ⟨he, hco, hro⟩ := hc
    have hm : AsksMove tx.conn (Tx.onEach tx.conn actors (·.tell .poisonPill)) :=
      asksMove_onEach_tell
    exact ⟨hm.elected he, hm.askedOnly hco, hm.askedOnly hro,
      fun i hi => (hm i .commit).2 _ (hack i hi)⟩
  | @startRollback actors hcoord =>
    rw [Coordinated, hcoord] at hc
    obtain ⟨he, hco, hro⟩ := hc
    exact ⟨he.onEach_sendAsk (by decide), hco.onEach_sendAsk (by decide),
      askedOnly_onEach_sendAsk hro⟩
  | @finishRollback actors hcoord =>
    rw [Coordinated, hcoord] at hc
    obtain ⟨he, hco, hro⟩ := hc
    have hm : AsksMove tx.conn (Tx.onEach tx.conn actors (·.tell .poisonPill)) :=
      asksMove_onEach_tell
    exact ⟨hm.elected he, hm.askedOnly hco, hm.askedOnly hro⟩

/-! ### Every connection stays sound -/

namespace Connection

variable {txId : String} {documents : List Document} {c : Connection}

/-- Sending an ask for the first time keeps a connection sound. -/
theorem Sound.sendAsk (hc : Sound txId documents c) {p : Phase} (hp : c.ask p = .unsent) :
    Sound txId documents (c.sendAsk p) := by
  obtain ⟨⟨hcle, hrle, hcu, hru⟩, ⟨hframes, hsaved, htx, hins, hdel⟩, hack⟩ := hc
  have hcommits : (c.sendAsk p).commits = c.commits + if p = .commit then 1 else 0 := by
    cases p <;> simp [commits, Phase.request]
    omega
  have hrollbacks : (c.sendAsk p).rollbacks = c.rollbacks + if p = .rollback then 1 else 0 := by
    cases p <;> simp [rollbacks, Phase.request]
    omega
  -- a first ask makes one token where there was none
  refine ⟨⟨?_, ?_, ?_, ?_⟩, ?_, ?_⟩
  · rw [hcommits]
    split
    · next h => subst h; exact (hcu hp).symm ▸ Nat.le_refl 1
    · exact hcle
  · rw [hrollbacks]
    split
    · next h => subst h; exact (hru hp).symm ▸ Nat.le_refl 1
    · exact hrle
  · intro hu
    rw [hcommits]
    cases p with
    | commit => simp [Connection.sendAsk, setAsk, tell] at hu
    | vote => simpa using hcu hu
    | rollback => simpa using hcu hu
  · intro hu
    rw [hrollbacks]
    cases p with
    | rollback => simp [Connection.sendAsk, setAsk, tell] at hu
    | vote => simpa using hru hu
    | commit => simpa using hru hu
  · exact ⟨by simpa using hframes, by simpa using hsaved, by simpa using htx,
      by simpa using hins, by simpa using hdel⟩
  · intro hu hev
    rw [sendAsk_agent]
    cases p with
    | rollback => simp [Connection.sendAsk, setAsk, tell] at hu
    | vote => exact hack hu hev
    | commit =>
      -- the commit's promise is fresh, so the evidence is the `ACK` on the wire
      refine hack hu (.inl ?_)
      simpa [Connection.sendAsk, setAsk, tell] using hev

/-- So does a `PoisonPill`. -/
theorem Sound.tell_poisonPill (hc : Sound txId documents c) :
    Sound txId documents (c.tell .poisonPill) := by
  obtain ⟨⟨hcle, hrle, hcu, hru⟩, ⟨hframes, hsaved, htx, hins, hdel⟩, hack⟩ := hc
  have hcommits : (c.tell .poisonPill).commits = c.commits := by simp [commits]
  have hrollbacks : (c.tell .poisonPill).rollbacks = c.rollbacks := by simp [rollbacks]
  exact ⟨⟨hcommits ▸ hcle, hrollbacks ▸ hrle, fun hu => hcommits ▸ hcu hu,
    fun hu => hrollbacks ▸ hru hu⟩, ⟨hframes, hsaved, htx, hins, hdel⟩, hack⟩

end Connection

/-- The invariant of a transaction. -/
structure Invariant (cfg : Transaction H) (tx : Tx) : Prop where
  coordinated : Coordinated cfg tx
  sound : ∀ i, Connection.Sound cfg.txId cfg.documents (tx.conn i)

/-- What holds of the connections that are acted on, and of the others anyway, holds of
    all. -/
theorem forall_onEach {P : Connection → Prop} {conn : ℕ → Connection} {hosts : List ℕ}
    (f : Connection → Connection) (h : ∀ i, P (conn i)) (hf : ∀ i ∈ hosts, P (f (conn i))) :
    ∀ i, P (Tx.onEach conn hosts f i) := by
  intro i
  by_cases hi : i ∈ hosts
  · rw [onEach_of_mem hi]
    exact hf i hi
  · rw [onEach_of_notMem hi]
    exact h i

/-- **A connection under a step of the coordinator**: it is left alone, asked a phase for the
    first time, or sent a `PoisonPill`. -/
theorem Tx.Advance.conn_eq {cfg : Transaction H} {tx tx' : Tx}
    (h : tx.Advance cfg.minDbsCount tx') (hc : Coordinated cfg tx) (i : ℕ) :
    tx'.conn i = tx.conn i ∨
      (∃ p, (tx.conn i).ask p = .unsent ∧ tx'.conn i = (tx.conn i).sendAsk p) ∨
      tx'.conn i = (tx.conn i).tell .poisonPill := by
  have hsend : ∀ hosts p, (∀ i ∈ hosts, (tx.conn i).ask p = .unsent) →
      Tx.onEach tx.conn hosts (·.sendAsk p) i = tx.conn i ∨
        ∃ q, (tx.conn i).ask q = .unsent ∧
          Tx.onEach tx.conn hosts (·.sendAsk p) i = (tx.conn i).sendAsk q := by
    intro hosts p hu
    by_cases hi : i ∈ hosts
    · exact .inr ⟨p, hu i hi, onEach_of_mem hi⟩
    · exact .inl (onEach_of_notMem hi)
  have htell : ∀ hosts, Tx.onEach tx.conn hosts (·.tell .poisonPill) i = tx.conn i ∨
      Tx.onEach tx.conn hosts (·.tell .poisonPill) i = (tx.conn i).tell .poisonPill := by
    intro hosts
    by_cases hi : i ∈ hosts
    · exact .inr (onEach_of_mem hi)
    · exact .inl (onEach_of_notMem hi)
  cases h with
  | notEnough => exact .inl rfl
  | @startRound potential commiting shuffled hcoord hlt hmany hperm =>
    simp only [Coordinated, hcoord] at hc
    exact (hsend _ .vote fun i hi => hc.2.2.2.1 i (drawHosts_subset hperm i hi)).imp_right .inl
  | endRound => exact .inl rfl
  | @sendCommit potential commiting hcoord hge =>
    simp only [Coordinated, hcoord] at hc
    exact (hsend _ .commit fun i _ => hc.2.2.2.2.2.1 i (by simp)).imp_right .inl
  | succeed => exact (htell _).imp_right .inr
  | startRollback hcoord =>
    simp only [Coordinated, hcoord] at hc
    exact (hsend _ .rollback fun i _ => hc.2.2 i (by simp)).imp_right .inl
  | finishRollback => exact (htell _).imp_right .inr

/-- What holds of every connection is kept if asking a phase for the first time and sending a
    `PoisonPill` keep it. -/
theorem Tx.Advance.forall_conn {cfg : Transaction H} {tx tx' : Tx} {P : Connection → Prop}
    (h : tx.Advance cfg.minDbsCount tx') (hc : Coordinated cfg tx) (hP : ∀ i, P (tx.conn i))
    (hask : ∀ c p, P c → c.ask p = .unsent → P (c.sendAsk p))
    (htell : ∀ c, P c → P (c.tell .poisonPill)) : ∀ i, P (tx'.conn i) := by
  intro i
  rcases h.conn_eq hc i with heq | ⟨p, hu, heq⟩ | heq <;> rw [heq]
  · exact hP i
  · exact hask _ p (hP i) hu
  · exact htell _ (hP i)

/-- An answer stays. -/
theorem Tx.Advance.answered {cfg : Transaction H} {tx tx' : Tx}
    (h : tx.Advance cfg.minDbsCount tx') (hc : Coordinated cfg tx) {i : ℕ} {p : Phase}
    {m : Message} (hm : (tx.conn i).ask p = .answered m) :
    (tx'.conn i).ask p = .answered m := by
  rcases h.conn_eq hc i with heq | ⟨q, hu, heq⟩ | heq <;> rw [heq]
  · exact hm
  · -- an ask that is sent has no answer yet
    have hne : p ≠ q := by
      rintro rfl
      simp [hm] at hu
    rw [Connection.ask_sendAsk, if_neg hne, hm]
  · rw [Connection.ask_tell, hm]

/-- The coordinator's steps keep the invariant. -/
theorem Invariant.advance {cfg : Transaction H} {tx tx' : Tx} (hinv : Invariant cfg tx)
    (h : tx.Advance cfg.minDbsCount tx') : Invariant cfg tx' where
  coordinated := hinv.coordinated.advance h
  sound := h.forall_conn hinv.coordinated hinv.sound (fun _ _ hs hu => hs.sendAsk hu)
    fun _ hs => hs.tell_poisonPill

/-! ### Runs -/

/-- A new transaction satisfies the invariant. -/
theorem Invariant.init (cfg : Transaction H) : Invariant cfg (Tx.init cfg) where
  coordinated := by
    refine ⟨by simpa [Tx.init] using List.nodup_range, ?_, by simp, ?_, ?_, ?_, ?_⟩
    · simp
    · intro i _; rfl
    · intro i hi; simp at hi
    · intro i _; rfl
    · intro i _; rfl
  sound := fun _ => .initial

variable [DecidableEq H]

/-- **Step lemma.**  Every step of a transaction keeps its invariant, over any collections. -/
theorem Invariant.step {cfg : Transaction H} {tx tx' : Tx} {votes votes' : H → List Document}
    {a : Tx.Action} (hinv : Invariant cfg tx) (h : Tx.step cfg tx votes a = some (tx', votes')) :
    Invariant cfg tx' := by
  cases a with
  | coordinator shuffled =>
    exact hinv.advance (Tx.advance_of_step h).1
  | connection i a =>
    obtain ⟨host, c, vs, hhost, -, hrule, rfl, rfl⟩ := Tx.connection_of_step h
    exact ⟨hinv.coordinated.of_asksMove (asksMove_update hrule),
      (Function.forall_update_iff tx.conn fun _ c => Connection.Sound cfg.txId cfg.documents c).mpr
        ⟨(hinv.sound i).step hrule, fun j _ => hinv.sound j⟩⟩

/-- **Run lemma.**  The invariant holds after every run. -/
theorem invariant_of_run {cfg : Transaction H} {votes : H → List Document}
    {as : List Tx.Action} {s : State H}
    (hrun : run (transition cfg) (start cfg votes) as = some s) : Invariant cfg s.1 :=
  run_invariant (I := fun s => Invariant cfg s.1)
    (fun _ _ _ hinv h => hinv.step h) (.init cfg) hrun

end RsoVoting.TwoPhase
