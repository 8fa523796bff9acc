import RsoVoting.TwoPhase.Coordination

namespace RsoVoting.TwoPhase

/-!
# The selection of hosts

`selectActorsForCommit` asks hosts for their vote in rounds, each time as many of the hosts
not asked so far as are still missing, in random order, until enough have voted ok or too few
are left.  Here it is the loop by itself, over what every host would answer.

* `Shuffle` — the outcome of `Random.shuffle` in a round;
* `selectActorsForCommit` — the hosts asked in each round, and the actors or the exception;
* `selection_exact` — the loop asks no host twice and succeeds exactly if enough hosts would
  vote ok, whatever the shuffles are;
* `selects_of_run` — in every run of a transaction its coordinator selects as the loop does.
-/

/-- `Random.shuffle` in one round: some rearrangement of each list. -/
structure Shuffle where
  shuffle : List ℕ → List ℕ
  perm : ∀ l, (shuffle l).Perm l

/-- A round with hosts to ask leaves fewer candidates. -/
theorem length_potentialAfter_lt {potential shuffled : List ℕ} {left : ℕ}
    (hperm : shuffled.Perm potential) (hleft : 0 < left) (hle : left ≤ potential.length) :
    (potentialAfter potential (drawHosts shuffled left)).length < potential.length := by
  -- the first host drawn is a candidate, and is none any more
  have hlen := length_drawHosts hperm hle
  obtain ⟨i, hi⟩ := List.exists_mem_of_length_pos (by omega : 0 < (drawHosts shuffled left).length)
  refine List.length_filter_lt_length_iff_exists.mpr ⟨i, drawHosts_subset hperm i hi, ?_⟩
  simpa using hi

/-- The `while` loop, from a round on: the hosts asked in each round and the actors at the
    end, `none` for "Not enough db nodes running!". -/
def selectLoop (minDbsCount : ℕ) (response : ℕ → Message) (shuffles : ℕ → Shuffle) (round : ℕ)
    (potentialDbsIndicies commitingActors : List ℕ) : List (List ℕ) × Option (List ℕ) :=
  if _ : commitingActors.length < minDbsCount then
    let leftToCommitCount := minDbsCount - commitingActors.length
    if _ : leftToCommitCount > potentialDbsIndicies.length then ([], none)
    else
      let dbHostsIndicies :=
        drawHosts ((shuffles round).shuffle potentialDbsIndicies) leftToCommitCount
      let actorsVotedOk := dbHostsIndicies.filter fun i => response i = .voteOk
      let (rounds, result) := selectLoop minDbsCount response shuffles (round + 1)
        (potentialAfter potentialDbsIndicies dbHostsIndicies) (commitingActors ++ actorsVotedOk)
      (dbHostsIndicies :: rounds, result)
  else ([], some commitingActors)
termination_by potentialDbsIndicies.length
decreasing_by
  exact length_potentialAfter_lt ((shuffles round).perm _) (by omega) (by omega)

/-- `selectActorsForCommit(documents)` over a number of hosts; `response` is what each would
    answer, with the `recover` of a timeout applied. -/
def selectActorsForCommit (minDbsCount hosts : ℕ) (response : ℕ → Message)
    (shuffles : ℕ → Shuffle) : List (List ℕ) × Option (List ℕ) :=
  selectLoop minDbsCount response shuffles 0 (List.range hosts) []

/-! ### The equations of the loop -/

section Equations

variable {minDbsCount : ℕ} {response : ℕ → Message} {shuffles : ℕ → Shuffle} {round : ℕ}
  {potential commiting : List ℕ}

/-- Enough hosts have voted ok. -/
theorem selectLoop_enough (h : minDbsCount ≤ commiting.length) :
    selectLoop minDbsCount response shuffles round potential commiting = ([], some commiting) := by
  rw [selectLoop, dif_neg (by omega)]

/-- Too few hosts are left. -/
theorem selectLoop_tooFew (h : potential.length + commiting.length < minDbsCount) :
    selectLoop minDbsCount response shuffles round potential commiting = ([], none) := by
  rw [selectLoop, dif_pos (by omega), dif_pos (by omega)]

/-- A round. -/
theorem selectLoop_round (hlt : commiting.length < minDbsCount)
    (hle : minDbsCount ≤ potential.length + commiting.length) :
    selectLoop minDbsCount response shuffles round potential commiting =
      let drawn := drawHosts ((shuffles round).shuffle potential) (minDbsCount - commiting.length)
      let rest := selectLoop minDbsCount response shuffles (round + 1)
        (potentialAfter potential drawn)
        (commiting ++ drawn.filter fun i => response i = .voteOk)
      (drawn :: rest.1, rest.2) := by
  rw [selectLoop, dif_pos hlt, dif_neg (by omega)]

end Equations

/-! ### What the loop keeps

Along the loop the candidates and the actors are distinct hosts, the actors are at most as
many as needed and have voted ok, and the willing hosts among both never become fewer. -/

section Loop

variable {minDbsCount : ℕ} {response : ℕ → Message} {shuffles : ℕ → Shuffle} {round : ℕ}
  {potential commiting : List ℕ}

/-- A round asks new hosts, so there are no more rounds than candidates and no host is asked
    twice. -/
theorem selectLoop_asked (hnd : potential.Nodup) :
    let asked := (selectLoop minDbsCount response shuffles round potential commiting).1
    asked.length ≤ potential.length ∧ asked.flatten.Nodup ∧ ∀ i ∈ asked.flatten, i ∈ potential := by
  induction round, potential, commiting using
    selectLoop.induct minDbsCount response shuffles with
  | case1 round potential commiting hlt left hfew =>
    rw [selectLoop_tooFew (by omega)]
    simp
  | case2 round potential commiting hlt left hle drawn votedOk rounds result hrest ih =>
    have hperm := (shuffles round).perm potential
    have hround : (potentialAfter potential drawn ++ ([] ++ drawn)).Nodup :=
      nodup_round (by simpa using hnd) hperm
    obtain ⟨hafter, hdrawn, hdisj⟩ := List.nodup_append.mp hround
    obtain ⟨hlen, hasked, hsub⟩ := ih hafter
    rw [selectLoop_round hlt (by omega)]
    refine ⟨?_, ?_, ?_⟩
    · have := length_potentialAfter_lt hperm (by omega : 0 < left) (by omega)
      exact Nat.succ_le_of_lt (Nat.lt_of_le_of_lt hlen this)
    · -- what is asked later is still a candidate after this round
      refine List.nodup_append.mpr ⟨by simpa using hdrawn, hasked, ?_⟩
      rintro a ha b hb rfl
      exact hdisj a (hsub a hb) a (by simpa using ha) rfl
    · intro i hi
      rw [List.flatten_cons, List.mem_append] at hi
      rcases hi with hi | hi
      · exact drawHosts_subset hperm i hi
      · exact (mem_potentialAfter.mp (hsub i hi)).1
  | case3 round potential commiting hge =>
    rw [selectLoop_enough (by omega)]
    simp

/-- The actors at the end: as many as needed, distinct, and each has voted ok when asked. -/
theorem selectLoop_actors {actors : List ℕ} (hnd : (potential ++ commiting).Nodup)
    (hle : commiting.length ≤ minDbsCount) (hok : ∀ i ∈ commiting, response i = .voteOk)
    (h : (selectLoop minDbsCount response shuffles round potential commiting).2 = some actors) :
    actors.length = minDbsCount ∧ actors.Nodup ∧ ∀ i ∈ actors, response i = .voteOk ∧
      (i ∈ commiting ∨ i ∈ (selectLoop minDbsCount response shuffles round potential
        commiting).1.flatten) := by
  induction round, potential, commiting using
    selectLoop.induct minDbsCount response shuffles with
  | case1 round potential commiting hlt left hfew =>
    rw [selectLoop_tooFew (by omega)] at h
    simp at h
  | case2 round potential commiting hlt left hmany drawn votedOk rounds result hrest ih =>
    have hperm := (shuffles round).perm potential
    rw [selectLoop_round hlt (by omega)] at h ⊢
    -- the votes of this round are among the hosts drawn, which were candidates
    have hsub : (commiting ++ votedOk).Sublist (commiting ++ drawn) :=
      (List.Sublist.refl _).append List.filter_sublist
    have hround : (potentialAfter potential drawn ++ (commiting ++ drawn)).Nodup :=
      nodup_round hnd hperm
    have hnd' := hround.sublist ((List.Sublist.refl _).append hsub)
    have hle' : (commiting ++ votedOk).length ≤ minDbsCount := by
      have hdrawn : drawn.length = left := length_drawHosts hperm (by omega)
      have := hsub.length_le
      rw [List.length_append, List.length_append, hdrawn] at this
      rw [List.length_append]
      omega
    have hok' : ∀ i ∈ commiting ++ votedOk, response i = .voteOk := by
      intro i hi
      rcases List.mem_append.mp hi with hi | hi
      · exact hok i hi
      · exact of_decide_eq_true (List.mem_filter.mp hi).2
    obtain ⟨hlen, hactors, hmem⟩ := ih hnd' hle' hok' h
    refine ⟨hlen, hactors, fun i hi => ?_⟩
    obtain ⟨hvoted, hi⟩ := hmem i hi
    refine ⟨hvoted, ?_⟩
    rw [List.flatten_cons, List.mem_append]
    rcases hi with hi | hi
    · rcases List.mem_append.mp hi with hi | hi
      · exact .inl hi
      · exact .inr (.inl (List.mem_filter.mp hi).1)
    · exact .inr (.inr hi)
  | case3 round potential commiting hge =>
    rw [selectLoop_enough (by omega)] at h ⊢
    obtain rfl : commiting = actors := Option.some.inj h
    exact ⟨by omega, (List.nodup_append.mp hnd).2.1, fun i hi => ⟨hok i hi, .inl hi⟩⟩

/-- The loop succeeds exactly if the actors so far and the willing candidates are enough. -/
theorem selectLoop_isSome_iff (hnd : potential.Nodup) :
    (selectLoop minDbsCount response shuffles round potential commiting).2.isSome ↔
      minDbsCount ≤ commiting.length + potential.countP fun i => response i = .voteOk := by
  induction round, potential, commiting using
    selectLoop.induct minDbsCount response shuffles with
  | case1 round potential commiting hlt left hfew =>
    rw [selectLoop_tooFew (by omega)]
    have := List.countP_le_length (p := fun i => decide (response i = .voteOk)) (l := potential)
    simp only [Option.isSome_none, Bool.false_eq_true, false_iff]
    omega
  | case2 round potential commiting hlt left hmany drawn votedOk rounds result hrest ih =>
    have hperm := (shuffles round).perm potential
    rw [selectLoop_round hlt (by omega)]
    -- the willing hosts of this round move from the candidates to the actors
    have hcount : _ = drawn.countP _ + (potentialAfter potential drawn).countP _ :=
      countP_round hnd hperm left fun i => response i = .voteOk
    have hvoted : votedOk.length = drawn.countP fun i => response i = .voteOk :=
      List.countP_eq_length_filter.symm
    refine (ih (hnd.filter _)).trans ?_
    rw [List.length_append, hvoted, hcount]
    omega
  | case3 round potential commiting hge =>
    rw [selectLoop_enough (by omega)]
    simp only [Option.isSome_some, true_iff]
    omega

end Loop

/-! ### The selection is exact and complete -/

/-- **The selection is exact.**  Whatever the shuffles are, no host is asked twice, and the
    loop ends after at most as many rounds as there are hosts: with as many distinct actors
    as needed, all of which were asked and voted ok, if so many hosts would; with the exception
    otherwise. -/
theorem selection_exact (minDbsCount hosts : ℕ) (response : ℕ → Message)
    (shuffles : ℕ → Shuffle) :
    let selection := selectActorsForCommit minDbsCount hosts response shuffles
    let willing := (List.range hosts).countP fun i => response i = .voteOk
    selection.1.length ≤ hosts ∧ selection.1.flatten.Nodup ∧
    (∀ i ∈ selection.1.flatten, i < hosts) ∧
    (minDbsCount ≤ willing → ∃ actors, selection.2 = some actors ∧
      actors.length = minDbsCount ∧ actors.Nodup ∧
      ∀ i ∈ actors, i ∈ selection.1.flatten ∧ response i = .voteOk) ∧
    (willing < minDbsCount → selection.2 = none) := by
  intro selection willing
  have hnd : (List.range hosts).Nodup := List.nodup_range
  obtain ⟨hlen, hasked, hsub⟩ : selection.1.length ≤ (List.range hosts).length ∧
      selection.1.flatten.Nodup ∧ ∀ i ∈ selection.1.flatten, i ∈ List.range hosts :=
    selectLoop_asked hnd
  have hsome : selection.2.isSome ↔ minDbsCount ≤ ([] : List ℕ).length + willing :=
    selectLoop_isSome_iff hnd
  rw [List.length_nil, Nat.zero_add] at hsome
  rw [List.length_range] at hlen
  refine ⟨hlen, hasked, fun i hi => List.mem_range.mp (hsub i hi), ?_, ?_⟩
  · intro hwilling
    obtain ⟨actors, hactors⟩ := Option.isSome_iff_exists.mp (hsome.mpr hwilling)
    obtain ⟨hcount, hnd, hmem⟩ := selectLoop_actors (by simpa using hnd)
      (Nat.zero_le _) (by simp) hactors
    refine ⟨actors, hactors, hcount, hnd, fun i hi => ?_⟩
    obtain ⟨hvoted, hi⟩ := hmem i hi
    exact ⟨hi.resolve_left (by simp), hvoted⟩
  · intro hfew
    refine Option.not_isSome_iff_eq_none.mp fun h => ?_
    exact Nat.not_le_of_lt hfew (hsome.mp h)

/-! ### The selection of a transaction

In a run of a transaction the rounds are steps of the coordinator, between which the hosts
answer in any order.  What comes of them is what the loop makes of the answers, under the
shuffles that were drawn. -/

/-- The shuffle that rearranges the candidates as it has been drawn. -/
def Shuffle.of {potential shuffled : List ℕ} (hperm : shuffled.Perm potential) : Shuffle where
  shuffle l := if l = potential then shuffled else l
  perm l := by
    split
    · next h => exact h ▸ hperm
    · exact .refl l

/-- A shuffle before all others. -/
def Shuffle.cons (shuffle : Shuffle) (shuffles : ℕ → Shuffle) : ℕ → Shuffle
  | 0         => shuffle
  | round + 1 => shuffles round

/-- The loop does not know how many rounds there have been. -/
theorem selectLoop_cons (minDbsCount : ℕ) (response : ℕ → Message) (shuffle : Shuffle)
    (shuffles : ℕ → Shuffle) (round : ℕ) (potential commiting : List ℕ) :
    selectLoop minDbsCount response (shuffle.cons shuffles) (round + 1) potential commiting =
      selectLoop minDbsCount response shuffles round potential commiting := by
  induction round, potential, commiting using
    selectLoop.induct minDbsCount response shuffles with
  | case1 round potential commiting hlt left hfew =>
    rw [selectLoop_tooFew (by omega), selectLoop_tooFew (by omega)]
  | case2 round potential commiting hlt left hle drawn votedOk rounds result hrest ih =>
    rw [selectLoop_round hlt (by omega), selectLoop_round hlt (by omega)]
    exact congrArg (fun rest => (drawn :: rest.1, rest.2)) ih
  | case3 round potential commiting hge =>
    rw [selectLoop_enough (by omega), selectLoop_enough (by omega)]

/-- The hosts that have answered their vote have answered as `response` says. -/
def Responds (response : ℕ → Message) (conn : ℕ → Connection) : Prop :=
  ∀ i m, (conn i).voteAsk = .answered m → response i = m

section Selects

variable {H : Type} {cfg : Transaction H} {response : ℕ → Message}

/-- The outcome of the selection is one that the loop has under some shuffles; while the
    selection is going on, every outcome of the rest of the loop is one of the whole loop. -/
def Selects (cfg : Transaction H) (response : ℕ → Message) (coord : Coordinator) : Prop :=
  let selection := selectActorsForCommit cfg.minDbsCount cfg.dbHostsConf.length response
  match coord with
  | .selecting potential commiting => ∀ rest, ∃ shuffles, (selection shuffles).2 =
      (selectLoop cfg.minDbsCount response rest 0 potential commiting).2
  | .voting potential commiting dbHosts => ∀ rest, ∃ shuffles, (selection shuffles).2 =
      (selectLoop cfg.minDbsCount response rest 0 potential
        (commiting ++ dbHosts.filter fun i => response i = .voteOk)).2
  | .committing actors | .rollingBack actors | .done (some actors) _ =>
    ∃ shuffles, (selection shuffles).2 = some actors
  | .done none _ => ∃ shuffles, (selection shuffles).2 = none

/-- The answers that are in are the ones that count. -/
theorem votedOk_eq {conn : ℕ → Connection} {hosts : List ℕ} (hR : Responds response conn)
    (hans : Tx.allAnswered conn hosts .vote = true) :
    Tx.votedOk conn hosts = hosts.filter fun i => response i = .voteOk := by
  refine List.filter_congr fun i hi => ?_
  have hi' : ((conn i).voteAsk).isAnswered = true := List.all_eq_true.mp hans i hi
  cases hask : (conn i).voteAsk with
  | unsent => simp [hask, Ask.isAnswered] at hi'
  | pending => simp [hask, Ask.isAnswered] at hi'
  | answered m => simp [hR i m hask]

/-- A step of the coordinator. -/
theorem Selects.advance {tx tx' : Tx} (hs : Selects cfg response tx.coord)
    (hR : Responds response tx.conn) (h : tx.Advance cfg.minDbsCount tx') :
    Selects cfg response tx'.coord := by
  unfold Selects at hs ⊢
  cases h with
  | notEnough hcoord hlt hfew =>
    simp only [hcoord] at hs ⊢
    obtain ⟨shuffles, hsel⟩ := hs fun _ => ⟨id, .refl⟩
    exact ⟨shuffles, hsel.trans (congrArg Prod.snd (selectLoop_tooFew (by omega)))⟩
  | @startRound potential commiting shuffled hcoord hlt hmany hperm =>
    simp only [hcoord] at hs ⊢
    intro rest
    -- the loop draws the same hosts if it begins with this shuffle
    obtain ⟨shuffles, hsel⟩ := hs ((Shuffle.of hperm).cons rest)
    refine ⟨shuffles, hsel.trans ?_⟩
    have hshuffle : ((Shuffle.of hperm).cons rest 0).shuffle potential = shuffled := if_pos rfl
    rw [selectLoop_round hlt (by omega), hshuffle]
    dsimp only
    rw [selectLoop_cons]
  | @endRound potential commiting dbHosts hcoord hans =>
    simp only [hcoord] at hs ⊢
    rwa [votedOk_eq hR hans]
  | sendCommit hcoord hge =>
    simp only [hcoord] at hs ⊢
    obtain ⟨shuffles, hsel⟩ := hs fun _ => ⟨id, .refl⟩
    exact ⟨shuffles, hsel.trans (congrArg Prod.snd (selectLoop_enough hge))⟩
  | succeed hcoord => simpa only [hcoord] using hs
  | startRollback hcoord => simpa only [hcoord] using hs
  | finishRollback hcoord => simpa only [hcoord] using hs

end Selects

section Runs

open RsoVoting.Runs RsoVoting.Interleave

variable {H : Type} [DecidableEq H] {cfg : Transaction H}

/-- An answer stays an answer. -/
theorem Invariant.answered {tx tx' : Tx} {votes votes' : H → List Document} {a : Tx.Action}
    (hinv : Invariant cfg tx) (h : Tx.step cfg tx votes a = some (tx', votes')) {i : ℕ}
    {p : Phase} {m : Message} (hm : (tx.conn i).ask p = .answered m) :
    (tx'.conn i).ask p = .answered m := by
  cases a with
  | coordinator shuffled =>
    exact (Tx.advance_of_step h).1.answered hinv.coordinated hm
  | connection j a =>
    obtain ⟨host, c, vs, -, -, hrule, rfl, rfl⟩ := Tx.connection_of_step h
    exact (asksMove_update hrule i p).2 m hm

/-- A step of the transaction, for whatever the hosts have answered after it. -/
theorem Selects.step {tx tx' : Tx} {votes votes' : H → List Document} {a : Tx.Action}
    (hinv : Invariant cfg tx)
    (hs : ∀ response, Responds response tx.conn → Selects cfg response tx.coord)
    (h : Tx.step cfg tx votes a = some (tx', votes')) :
    ∀ response, Responds response tx'.conn → Selects cfg response tx'.coord := by
  intro response hR'
  have hR : Responds response tx.conn := fun i m hm => hR' i m (hinv.answered h (p := .vote) hm)
  cases a with
  | coordinator shuffled =>
    exact (hs response hR).advance hR (Tx.advance_of_step h).1
  | connection i a =>
    obtain ⟨host, c, vs, -, -, -, rfl, rfl⟩ := Tx.connection_of_step h
    exact hs response hR

/-- **A transaction selects as the loop does**: at every moment of a run, whatever the hosts
    that have not answered yet would answer. -/
theorem selects_of_run {votes : H → List Document} {as : List Tx.Action} {s : State H}
    (hrun : run (transition cfg) (start cfg votes) as = some s) (response : ℕ → Message)
    (hR : Responds response s.1.conn) : Selects cfg response s.1.coord := by
  have hstart : ∀ response, Selects cfg response (start cfg votes).1.coord :=
    fun _ rest => ⟨rest, rfl⟩
  have hI : Invariant cfg s.1 ∧
      ∀ response, Responds response s.1.conn → Selects cfg response s.1.coord :=
    run_invariant (I := fun s : State H => Invariant cfg s.1 ∧
        ∀ response, Responds response s.1.conn → Selects cfg response s.1.coord)
      (fun _ _ _ hI h => ⟨hI.1.step h, Selects.step hI.1 hI.2 h⟩)
      ⟨.init cfg, fun response _ => hstart response⟩ hrun
  exact hI.2 response hR

/-- So a transaction that finds too few hosts would have found too few even if every host that
    it has not asked, or not heard from, were willing. -/
theorem few_of_notEnough {votes : H → List Document} {as : List Tx.Action} {s : State H}
    {answer : Result} (hrun : run (transition cfg) (start cfg votes) as = some s)
    (hdone : s.1.coord = .done none answer) {response : ℕ → Message}
    (hR : Responds response s.1.conn) :
    ((List.range cfg.dbHostsConf.length).countP fun i => response i = .voteOk) <
      cfg.minDbsCount := by
  have hs := selects_of_run hrun response hR
  rw [hdone] at hs
  obtain ⟨shuffles, hnone⟩ := hs
  have hsome : (selectActorsForCommit cfg.minDbsCount cfg.dbHostsConf.length response
      shuffles).2.isSome ↔ _ := selectLoop_isSome_iff List.nodup_range
  rw [hnone, List.length_nil, Nat.zero_add] at hsome
  exact Nat.lt_of_not_le fun hmany => by simpa using hsome.mpr hmany

end Runs

end RsoVoting.TwoPhase
