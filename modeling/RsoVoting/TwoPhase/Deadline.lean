import RsoVoting.TwoPhase.Storage
import Mathlib.Tactic.IntervalCases

namespace RsoVoting.TwoPhase

open RsoVoting.Runs RsoVoting.Interleave

/-!
# The coordinator against the servlet's deadline

`TwoPhaseCommitActor` gives every ask 2 s and asks in as many rounds as it takes;
`MainServlet` gives the whole transaction 5 s.  Here nothing is lost and every insert
succeeds, so a promise is answered by its reply or, when that takes too long, by the
timeout; what is left of the environment are delays and shuffles.

* `Delays` — how long every host takes to answer each ask;
* `Timed.step` — the coordinator's future runs to its next `Await` and waits there;
* `Timed.elapsed` — the time that this has taken;
* `post` — what the `POST` completes with;
* `post_agrees_iff` — exactly when that agrees with what is stored;
* `exists_step` / `length_le` — the coordinator always gets to its answer.
-/

variable {H : Type}

/-! ### Delays and awaited promises -/

/-- `Timeout(2 seconds)` of the coordinator, in milliseconds. -/
def askTimeout : ℕ := 2000

/-- `Timeout(5 seconds)` of the servlet. -/
def servletTimeout : ℕ := 5000

/-- The time in milliseconds from an ask of each phase to the reply of each host. -/
structure Delays where
  vote : ℕ → ℕ
  commit : ℕ → ℕ
  rollback : ℕ → ℕ

namespace Delays

/-- The delays of a phase. -/
def of (d : Delays) : Phase → ℕ → ℕ
  | .vote     => d.vote
  | .commit   => d.commit
  | .rollback => d.rollback

/-- The reply that a host gives to an ask. -/
def reply : Phase → Message
  | .vote     => .voteOk
  | .commit   => .ack
  | .rollback => .ack

/-- What the promise of an ask completes with: the reply, or the timeout's `recover`. -/
def answer (d : Delays) (p : Phase) (i : ℕ) : Message :=
  if d.of p i ≤ askTimeout then reply p else .unknownError

/-- `Await.result(Future.sequence(…), Duration.Inf)`: the time until the last of the asked
    hosts has replied or timed out. -/
def wait (d : Delays) (p : Phase) (hosts : List ℕ) : ℕ :=
  (hosts.map fun i => min (d.of p i) askTimeout).foldr max 0

/-- The host answers a vote in time. -/
def inTime (d : Delays) (i : ℕ) : Bool := d.vote i ≤ askTimeout

theorem answer_vote_eq {d : Delays} {i : ℕ} :
    d.answer .vote i = .voteOk ↔ d.inTime i = true := by
  by_cases h : d.vote i ≤ askTimeout <;> simp [answer, of, inTime, reply, h]

theorem answer_eq_reply_or (d : Delays) (p : Phase) (i : ℕ) :
    d.answer p i = reply p ∨ d.answer p i = .unknownError := by
  unfold answer
  split
  · exact .inl rfl
  · exact .inr rfl

end Delays

/-- The asks that the future awaits in a state. -/
def Coordinator.awaited : Coordinator → Option (Phase × List ℕ)
  | .voting _ _ dbHosts  => some (.vote, dbHosts)
  | .committing actors   => some (.commit, actors)
  | .rollingBack actors  => some (.rollback, actors)
  | .selecting _ _       => none
  | .done _ _            => none

/-! ### The timed coordinator -/

/-- The transaction, with the asks made so far in their order. -/
structure Timed where
  asks : List (Phase × List ℕ) := []
  tx : Tx

namespace Timed

/-- The time taken so far: a round, and the commit, wait for their slowest host. -/
def elapsed (d : Delays) (t : Timed) : ℕ := (t.asks.map fun a => d.wait a.1 a.2).sum

/-- The future waits until the promises it awaits are answered. -/
def await (d : Delays) (asks : List (Phase × List ℕ)) (tx : Tx) : Timed :=
  match tx.coord.awaited with
  | none            => { asks, tx }
  | some (p, hosts) =>
    { asks := asks ++ [(p, hosts)],
      tx := { tx with conn := fun i =>
        if i ∈ hosts then (tx.conn i).setAsk p (.answered (d.answer p i)) else tx.conn i } }

/-- The future runs to its next `Await` and waits there. -/
def step (cfg : Transaction H) (d : Delays) (t : Timed) (shuffled : List ℕ) : Option Timed :=
  (t.tx.proceed cfg.minDbsCount shuffled).map (await d t.asks)

/-- The coordinator has just received `"go"`. -/
def start (cfg : Transaction H) : Timed where
  tx := Tx.init cfg

/-- A host ever stores documents: it was asked to commit, and there is something to store.
    Nothing is lost and every insert succeeds. -/
def Stores (cfg : Transaction H) (t : Timed) (i : ℕ) : Prop :=
  (t.tx.conn i).commitAsk ≠ .unsent ∧ cfg.documents ≠ []

end Timed

/-- What the future of the `POST` completes with: the status, or the failure of the
    servlet's ask. -/
def post (elapsed : ℕ) (answer : Result) : Option Result :=
  if elapsed ≤ servletTimeout then some answer else none

/-! ### What a timed step keeps -/

section Steps

variable {cfg : Transaction H} {d : Delays} {t t' : Timed} {tx : Tx} {shuffled : List ℕ}
  {asks : List (Phase × List ℕ)}

@[simp] theorem Timed.await_coord : (await d asks tx).tx.coord = tx.coord := by
  unfold await
  split <;> rfl

/-- The promises of the awaited asks are answered, and no others change. -/
theorem Timed.ask_await {p : Phase} {hosts : List ℕ} (h : tx.coord.awaited = some (p, hosts))
    (i : ℕ) (q : Phase) :
    ((await d asks tx).tx.conn i).ask q =
      if i ∈ hosts ∧ q = p then .answered (d.answer p i) else (tx.conn i).ask q := by
  simp only [await, h]
  by_cases hi : i ∈ hosts
  · simp only [hi, if_true, true_and, Connection.ask_setAsk]
  · simp [hi]

/-- **Inversion** of a timed step. -/
theorem Timed.advance_of_step (h : t.step cfg d shuffled = some t') :
    ∃ tx, t.tx.Advance cfg.minDbsCount tx ∧ t' = await d t.asks tx := by
  obtain ⟨tx, hproceed, rfl⟩ := Option.map_eq_some_iff.mp h
  exact ⟨tx, Tx.advance_of_proceed hproceed, rfl⟩

/-- Awaiting answers no promise that was answered before: right after its coordinator
    step, an awaited promise is pending. -/
theorem Timed.asksMove_await {tx₀ : Tx} (hadv : tx₀.Advance cfg.minDbsCount tx) :
    AsksMove tx.conn (await d asks tx).tx.conn := by
  cases haw : tx.coord.awaited with
  | none => simp [await, haw, AsksMove]
  | some a =>
    obtain ⟨p, hosts⟩ := a
    have hpending : ∀ i ∈ hosts, (tx.conn i).ask p = .pending := by
      intro i hi
      -- the coordinator awaits only what it has just asked
      cases hadv with
      | notEnough => simp [Coordinator.awaited] at haw
      | endRound => simp [Coordinator.awaited] at haw
      | succeed => simp [Coordinator.awaited] at haw
      | finishRollback => simp [Coordinator.awaited] at haw
      | startRound | sendCommit | startRollback =>
        simp only [Coordinator.awaited, Option.some.injEq, Prod.mk.injEq] at haw
        obtain ⟨rfl, rfl⟩ := haw
        dsimp only
        rw [onEach_of_mem hi, Connection.ask_sendAsk, if_pos rfl]
    intro i q
    rw [ask_await haw]
    split
    · next h =>
      obtain ⟨hi, rfl⟩ := h
      simp [hpending i hi]
    · exact ⟨Iff.rfl, fun m hm => hm⟩

theorem Coordinated.await (hc : Coordinated cfg tx)
    (hmove : AsksMove tx.conn (Timed.await d asks tx).tx.conn) :
    Coordinated cfg (Timed.await d asks tx).tx := by
  have heq : (Timed.await d asks tx).tx =
      { tx with conn := (Timed.await d asks tx).tx.conn } := by
    unfold Timed.await
    split <;> rfl
  rw [heq]
  exact hc.of_asksMove hmove

end Steps

/-! ### How many hosts answer in time decides the selection -/

/-- The number of hosts that answer a vote in time. -/
def hostsInTime (cfg : Transaction H) (d : Delays) : ℕ :=
  (List.range cfg.dbHostsConf.length).countP d.inTime

/-- How the selection stands, place by place of the future: the hosts that answer in time
    are the selected ones and those among the candidates. -/
def Counted (cfg : Transaction H) (d : Delays) (tx : Tx) : Prop :=
  match tx.coord with
  | .selecting potential commiting =>
    hostsInTime cfg d = commiting.length + potential.countP d.inTime
  | .voting potential commiting dbHosts =>
    hostsInTime cfg d = commiting.length + (dbHosts.countP d.inTime + potential.countP d.inTime)
  | .committing _ | .done (some _) .ok => cfg.minDbsCount ≤ hostsInTime cfg d
  | .done none _ => hostsInTime cfg d < cfg.minDbsCount
  | .rollingBack actors | .done (some actors) .error =>
    ∃ i ∈ actors, (tx.conn i).commitAsk = .answered .unknownError

/-- What holds of the timed coordinator between two steps. -/
structure Timely (cfg : Transaction H) (d : Delays) (tx : Tx) : Prop where
  coordinated : Coordinated cfg tx
  answered : ∀ p hosts, tx.coord.awaited = some (p, hosts) →
    ∀ i ∈ hosts, (tx.conn i).ask p = .answered (d.answer p i)
  counted : Counted cfg d tx

theorem Timely.start (cfg : Transaction H) (d : Delays) :
    Timely cfg d (Timed.start cfg).tx where
  coordinated := (Invariant.init cfg).coordinated
  answered p hosts h := by simp [Timed.start, Tx.init, Coordinator.awaited] at h
  counted := by simp [Counted, Timed.start, Tx.init, hostsInTime]

/-- The count is kept: a round moves its hosts, and those in time are selected. -/
private theorem counted_step {cfg : Transaction H} {d : Delays} {tx tx' : Tx}
    {asks : List (Phase × List ℕ)} (ht : Timely cfg d tx)
    (hadv : tx.Advance cfg.minDbsCount tx') : Counted cfg d (Timed.await d asks tx').tx := by
  have hmove : AsksMove tx'.conn (Timed.await d asks tx').tx.conn := Timed.asksMove_await hadv
  obtain ⟨hc, hans, hcount⟩ := ht
  cases hadv with
  | @notEnough potential commiting hcoord hlt hfew =>
    simp only [Counted, hcoord] at hcount
    -- fewer candidates are left than hosts are missing
    have hle := List.countP_le_length (p := d.inTime) (l := potential)
    have : hostsInTime cfg d < cfg.minDbsCount := by omega
    simpa [Counted] using this
  | @startRound potential commiting shuffled hcoord hlt hmany hperm =>
    simp only [Counted, hcoord] at hcount
    simp only [Coordinated, hcoord] at hc
    have hround := countP_round (List.nodup_append.mp hc.1).1 hperm
      (cfg.minDbsCount - commiting.length) d.inTime
    simp only [Counted, Timed.await_coord]
    omega
  | @endRound potential commiting dbHosts hcoord =>
    simp only [Counted, hcoord] at hcount
    have hvotes := hans .vote dbHosts (by rw [hcoord]; rfl)
    -- the hosts that voted ok are those in time
    have hlen : (Tx.votedOk tx.conn dbHosts).length = dbHosts.countP d.inTime := by
      rw [Tx.votedOk, ← List.countP_eq_length_filter]
      refine List.countP_congr fun i hi => ?_
      have hv : (tx.conn i).voteAsk = _ := hvotes i hi
      simp [hv, Delays.answer_vote_eq]
    simp only [Counted, Timed.await_coord, List.length_append]
    omega
  | sendCommit hcoord hge =>
    simp only [Counted, hcoord] at hcount
    simp only [Counted, Timed.await_coord]
    omega
  | succeed hcoord =>
    simp only [Counted, hcoord] at hcount
    simpa [Counted] using hcount
  | @startRollback actors hcoord _ hack =>
    have hcommits := hans .commit actors (by rw [hcoord]; rfl)
    -- a commit that is not acknowledged has timed out, as nothing else goes wrong
    simp only [Tx.allAck, List.all_eq_false, decide_eq_true_eq] at hack
    obtain ⟨i, hi, hne⟩ := hack
    simp only [Counted, Timed.await_coord]
    refine ⟨i, hi, (hmove i .commit).2 _ ?_⟩
    rw [ask_onEach_sendAsk_of_ne (by decide)]
    rcases d.answer_eq_reply_or .commit i with ha | ha
    · exact absurd ((hcommits i hi).trans (by rw [ha]; rfl)) hne
    · exact (hcommits i hi).trans (by rw [ha])
  | @finishRollback actors hcoord =>
    simp only [Counted, hcoord] at hcount
    obtain ⟨i, hi, hu⟩ := hcount
    simp only [Counted, Timed.await_coord]
    refine ⟨i, hi, (hmove i .commit).2 _ ?_⟩
    rw [ask_onEach_tell]
    exact hu

/-- **Step lemma** of the timed coordinator. -/
theorem Timely.step {cfg : Transaction H} {d : Delays} {t t' : Timed} {shuffled : List ℕ}
    (ht : Timely cfg d t.tx) (h : t.step cfg d shuffled = some t') : Timely cfg d t'.tx := by
  obtain ⟨tx, hadv, rfl⟩ := Timed.advance_of_step h
  refine ⟨(ht.coordinated.advance hadv).await (Timed.asksMove_await hadv), ?_,
    counted_step ht hadv⟩
  intro p hosts haw i hi
  rw [Timed.await_coord] at haw
  rw [Timed.ask_await haw, if_pos ⟨hi, rfl⟩]

/-- **Run lemma** of the timed coordinator. -/
theorem timely_of_run {cfg : Transaction H} {d : Delays} {as : List (List ℕ)} {t : Timed}
    (hrun : run (Timed.step cfg d) (Timed.start cfg) as = some t) : Timely cfg d t.tx :=
  run_invariant (I := fun t => Timely cfg d t.tx) (fun _ _ _ hI h => hI.step h)
    (.start cfg d) hrun

/-! ### The result -/

/-- **When the answer agrees with the outcome.**  In a run in which no `Commit` ask times
    out, a `POST` that completes with anything but `ok` means that no host stores anything,
    exactly if there is nothing to store, or too few hosts answer their vote in time, or the
    rounds and the commit together take at most the servlet's 5 s. -/
theorem post_agrees_iff {cfg : Transaction H} (hr : 1 ≤ cfg.minDbsCount) {d : Delays}
    {as : List (List ℕ)} {t : Timed} (hrun : run (Timed.step cfg d) (Timed.start cfg) as = some t)
    {actors : Option (List ℕ)} {answer : Result} (hdone : t.tx.coord = .done actors answer)
    (hcommit : ∀ i < cfg.dbHostsConf.length,
      (t.tx.conn i).commitAsk ≠ .answered .unknownError) :
    (post (t.elapsed d) answer ≠ some .ok → ∀ i, ¬t.Stores cfg i) ↔
      cfg.documents = [] ∨ hostsInTime cfg d < cfg.minDbsCount ∨ t.elapsed d ≤ servletTimeout := by
  obtain ⟨hc, -, ht⟩ := timely_of_run hrun
  simp only [Coordinated, hdone] at hc
  simp only [Counted, hdone] at ht
  cases actors with
  | none =>
    -- nobody was asked to commit
    cases answer with
    | ok    => exact hc.elim
    | error => exact ⟨fun _ => .inr (.inl ht), fun _ _ i hs => hs.1 (hc.1 i (by simp))⟩
  | some actors =>
    cases answer with
    | error =>
      -- a rollback means that some commit ask has timed out
      obtain ⟨i, hactor, hi⟩ := ht
      exact absurd hi (hcommit i (hc.1.valid i hactor))
    | ok =>
      -- the selection is not empty, and all of it has been asked to commit
      obtain ⟨helected, -, -, hack⟩ := hc
      obtain ⟨i, hi⟩ := List.exists_mem_of_length_pos (helected.count ▸ hr)
      have hasked : (t.tx.conn i).commitAsk ≠ .unsent := by simp [hack i hi]
      constructor
      · intro h
        by_cases hd : cfg.documents = []
        · exact .inl hd
        by_cases hle : t.elapsed d ≤ servletTimeout
        · exact .inr (.inr hle)
        · exact absurd ⟨hasked, hd⟩ (h (by simp [post, hle]) i)
      · rintro (hd | hfew | hle) hpost j hs
        · exact hs.2 hd
        · omega
        · exact hpost (by simp [post, hle])

/-! #### Two sample runs

Redundancy one over four hosts, of which three do not answer their votes in time: three
rounds wait for 2 s each.  And a single host that answers at once.
-/

namespace Sample

/-- One document at one of four hosts. -/
def fourHosts : Transaction ℕ :=
  { transaction with dbHostsConf := [10, 20, 30, 40], minDbsCount := 1 }

/-- The first three hosts take 3 s to vote. -/
def slowVotes : Delays where
  vote i := if i < 3 then 3000 else 100
  commit _ := 100
  rollback _ := 100

/-- The fourth host is asked last. -/
def lateRun : List (List ℕ) := [[0, 1, 2, 3], [], [1, 2, 3], [], [2, 3], [], [3], [], [], []]

/-- The fourth host is asked first. -/
def quickRun : List (List ℕ) := [[3, 0, 1, 2], [], [], []]

end Sample

/-- The two deadlines do not compose: host `40` stores the document after the servlet has
    given up. -/
theorem late_answer_stores :
    ¬∀ (cfg : Transaction ℕ) (d : Delays) (as : List (List ℕ)) (t : Timed)
      (actors : Option (List ℕ)) (answer : Result), 1 ≤ cfg.minDbsCount →
      run (Timed.step cfg d) (Timed.start cfg) as = some t → t.tx.coord = .done actors answer →
      (∀ i < cfg.dbHostsConf.length, (t.tx.conn i).commitAsk ≠ .answered .unknownError) →
      post (t.elapsed d) answer ≠ some .ok → ∀ i, ¬t.Stores cfg i := by
  intro h
  have hend : (run (Timed.step Sample.fourHosts Sample.slowVotes) (Timed.start Sample.fourHosts)
      Sample.lateRun).map (fun t => (t.tx.coord, t.elapsed Sample.slowVotes,
        (List.range 4).map fun i => (t.tx.conn i).commitAsk)) =
      some (.done (some [3]) .ok, 6200, [.unsent, .unsent, .unsent, .answered .ack]) := by decide
  obtain ⟨t, hrun, ht⟩ := Option.map_eq_some_iff.mp hend
  simp only [Prod.mk.injEq, List.range, List.range.loop, List.map_cons, List.map_nil,
    List.cons.injEq, and_true] at ht
  obtain ⟨hcoord, htime, h0, h1, h2, h3⟩ := ht
  refine h _ _ _ t _ _ (by decide) hrun hcoord ?_ (by rw [htime]; decide) 3
    ⟨by simp [h3], by decide⟩
  intro i hi
  have hi' : i < 4 := hi
  interval_cases i
  · simp [h0]
  · simp [h1]
  · simp [h2]
  · simp [h3]

/-- In the quick run the answer is in time. -/
theorem post_agrees_iff_sample :
    ∃ t, run (Timed.step Sample.fourHosts Sample.slowVotes) (Timed.start Sample.fourHosts)
        Sample.quickRun = some t ∧
      (post (t.elapsed Sample.slowVotes) .ok ≠ some .ok → ∀ i, ¬t.Stores Sample.fourHosts i) := by
  have hend : (run (Timed.step Sample.fourHosts Sample.slowVotes) (Timed.start Sample.fourHosts)
      Sample.quickRun).map (fun t => (t.tx.coord, t.elapsed Sample.slowVotes,
        (List.range 4).map fun i => (t.tx.conn i).commitAsk)) =
      some (.done (some [3]) .ok, 200, [.unsent, .unsent, .unsent, .answered .ack]) := by decide
  obtain ⟨t, hrun, ht⟩ := Option.map_eq_some_iff.mp hend
  simp only [Prod.mk.injEq, List.range, List.range.loop, List.map_cons, List.map_nil,
    List.cons.injEq, and_true] at ht
  obtain ⟨hcoord, htime, h0, h1, h2, h3⟩ := ht
  refine ⟨t, hrun, (post_agrees_iff (by decide) hrun hcoord ?_).mpr
    (.inr (.inr (by rw [htime]; decide)))⟩
  intro i hi
  have hi' : i < 4 := hi
  interval_cases i <;> simp_all

/-! ### The coordinator gets to its answer -/

/-- How many steps the future can still take. -/
def Coordinator.rank : Coordinator → ℕ
  | .selecting potential _  => 2 * potential.length + 3
  | .voting potential _ _   => 2 * potential.length + 4
  | .committing _           => 2
  | .rollingBack _          => 1
  | .done _ _               => 0

/-- Every step of the coordinator comes nearer to the answer: a round uses up hosts. -/
theorem Tx.Advance.rank_lt {cfg : Transaction H} {tx tx' : Tx} (hc : Coordinated cfg tx)
    (h : tx.Advance cfg.minDbsCount tx') : tx'.coord.rank < tx.coord.rank := by
  cases h with
  | @startRound potential commiting shuffled hcoord hlt hmany hperm =>
    simp only [Coordinated, hcoord] at hc
    have hcount := countP_round (List.nodup_append.mp hc.1).1 hperm
      (cfg.minDbsCount - commiting.length) fun _ => true
    simp only [List.countP_true, length_drawHosts hperm hmany] at hcount
    simp only [hcoord, Coordinator.rank]
    omega
  | _ => simp_all [Coordinator.rank]

/-- The coordinator makes at most two steps for every host, and three more. -/
theorem length_le {cfg : Transaction H} {d : Delays} {as : List (List ℕ)} {t : Timed}
    (hrun : run (Timed.step cfg d) (Timed.start cfg) as = some t) :
    as.length ≤ 2 * cfg.dbHostsConf.length + 3 := by
  -- each step lowers the rank, which starts at the bound
  suffices hle : ∀ s, Timely cfg d s.tx → run (Timed.step cfg d) s as = some t →
      as.length ≤ s.tx.coord.rank by
    simpa [Timed.start, Tx.init, Coordinator.rank] using hle _ (.start cfg d) hrun
  clear hrun
  induction as with
  | nil => simp
  | cons a as ih =>
    intro s hs h
    obtain ⟨s', hs', hrest⟩ := run_cons_eq_some.mp h
    have hle := ih s' (hs.step hs') hrest
    obtain ⟨tx, hadv, rfl⟩ := Timed.advance_of_step hs'
    have hlt := hadv.rank_lt hs.coordinated
    rw [Timed.await_coord] at hle
    simp only [List.length_cons]
    omega

/-- The hosts that the next round is drawn from. -/
def Coordinator.candidates : Coordinator → List ℕ
  | .selecting potential _ => potential
  | _                      => []

/-- Once the promises it awaits are answered, the future runs on, whatever the shuffle. -/
theorem Tx.isSome_proceed {minDbsCount : ℕ} {tx : Tx} (hdone : tx.coord.isDone = false)
    (hall : ∀ p hosts, tx.coord.awaited = some (p, hosts) →
      Tx.allAnswered tx.conn hosts p = true)
    {shuffled : List ℕ} (hperm : shuffled.Perm tx.coord.candidates) :
    (tx.proceed minDbsCount shuffled).isSome = true := by
  cases hcoord : tx.coord with
  | selecting potential commiting =>
    have hperm' : shuffled.Perm potential := by simpa [hcoord, Coordinator.candidates] using hperm
    simp only [Tx.proceed, hcoord]
    grind
  | voting potential commiting dbHosts =>
    simp [Tx.proceed, hcoord, hall .vote dbHosts (by rw [hcoord]; rfl)]
  | committing actors =>
    simp only [Tx.proceed, hcoord, hall .commit actors (by rw [hcoord]; rfl), if_true]
    split <;> rfl
  | rollingBack actors =>
    simp [Tx.proceed, hcoord, hall .rollback actors (by rw [hcoord]; rfl)]
  | done actors r => simp [hcoord, Coordinator.isDone] at hdone

/-- Until it has answered, the coordinator can go on, whatever the shuffle. -/
theorem exists_step {cfg : Transaction H} {d : Delays} {as : List (List ℕ)} {t : Timed}
    (hrun : run (Timed.step cfg d) (Timed.start cfg) as = some t)
    (hdone : t.tx.coord.isDone = false) {shuffled : List ℕ}
    (hperm : shuffled.Perm t.tx.coord.candidates) :
    (t.step cfg d shuffled).isSome = true := by
  have hans := (timely_of_run hrun).answered
  simp only [Timed.step, Option.isSome_map]
  refine Tx.isSome_proceed hdone (fun p hosts haw => ?_) hperm
  refine List.all_eq_true.mpr fun i hi => ?_
  rw [hans p hosts haw i hi]
  rfl

end RsoVoting.TwoPhase
